import PiBuddyCam.Utf8Text

/-! The listing of the videos as `app/timelapse.py` cuts it up for the printer. -/
namespace PiBuddyCam.Timelapse

/-- One tuple `(page, total, chunk)`. -/
structure Fragment where
  page : ℕ
  total : ℕ
  chunk : List Char
  deriving DecidableEq

def sliced (data : List UInt8) (start stop : ℕ) : List UInt8 := (data.take stop).drop start

/-- `file_list_fragments`; the callers leave `chunk_size` at 1024. -/
def fileListFragments (listing : List Char) (chunkSize : ℕ) : List Fragment :=
  let data := Utf8.encode listing
  if data.isEmpty then []
  else if data.length < 0x401 then [⟨1, 1, listing⟩]
  else
    let total := (data.length >>> 10) + 1
    (List.range' 1 total).map fun page =>
      ⟨page, total, Utf8.decodeReplace (sliced data ((page-1)*chunkSize) (page*chunkSize))⟩

theorem flatMap_sliced (data : List UInt8) (size total : ℕ) :
    (List.range' 1 total).flatMap (fun page => sliced data ((page-1)*size) (page*size)) = data.take (total*size) := by
  induction total with
  | zero => simp
  | succ n ih =>
    -- the last page begins where the pages before it end
    have hlast : sliced data ((1+n-1)*size) ((1+n)*size) = (data.drop (n*size)).take size := by
      have hlength : (1+n)*size - n*size = size := by rw [Nat.add_mul, Nat.one_mul, Nat.add_sub_cancel]
      rw [sliced, Nat.add_sub_cancel_left, List.drop_take, hlength]
    rw [List.range'_1_concat, List.flatMap_append, ih, List.flatMap_singleton, hlast, Nat.succ_mul, List.take_add]

/-- The page count is one more than the full pages, so that no byte is left over at any length. -/
theorem take_pages (data : List UInt8) : data.take (((data.length >>> 10) + 1)*1024) = data := by
  apply List.take_of_length_le
  rw [Nat.shiftRight_eq_div_pow]
  omega

/-- The pages are numbered from 1 to their common total, and their chunks make up the listing. -/
structure Covers (fragments : List Fragment) (listing : List Char) : Prop where
  pages : fragments.map (·.page) = List.range' 1 fragments.length
  total : ∀ f ∈ fragments, f.total = fragments.length
  text : fragments.flatMap (·.chunk) = listing

theorem covers_numbered {listing : List Char} (total : ℕ) (chunk : ℕ → List Char)
    (htext : (List.range' 1 total).flatMap chunk = listing) :
    Covers ((List.range' 1 total).map fun page => ⟨page, total, chunk page⟩) listing where
  pages := by
    rw [List.map_map, List.length_map, List.length_range']
    exact List.map_id _
  total f hf := by
    obtain ⟨page, -, rfl⟩ := List.mem_map.mp hf
    rw [List.length_map, List.length_range']
  text := by
    rw [List.flatMap_map]
    exact htext

theorem fileListFragments_covers (listing : List Char) (hlisting : listing ≠ [])
    (hascii : ∀ c ∈ listing, c.toNat < 128) : Covers (fileListFragments listing 1024) listing := by
  have hdata : Utf8.encode listing = listing.map fun c => UInt8.ofNat c.toNat := Utf8.encode_ascii hascii
  have hfilled : ¬(Utf8.encode listing).isEmpty = true := by
    rw [hdata, List.isEmpty_map, List.isEmpty_iff]
    exact hlisting
  by_cases hshort : (Utf8.encode listing).length < 0x401
  · rw [fileListFragments, if_neg hfilled, if_pos hshort]
    exact covers_numbered 1 (fun _ => listing) (List.flatMap_singleton _ _)
  · rw [fileListFragments, if_neg hfilled, if_neg hshort]
    apply covers_numbered
    -- a slice of ASCII bytes is decoded byte by byte, so decoding can be moved behind the joining
    have hchunk (start stop : ℕ) : Utf8.decodeReplace (sliced (Utf8.encode listing) start stop) =
        (sliced (Utf8.encode listing) start stop).map fun b => Char.ofNat b.toNat := by
      apply Utf8.decodeReplace_ascii
      intro b hb
      have hmem : b ∈ Utf8.encode listing := List.mem_of_mem_take (List.mem_of_mem_drop hb)
      rw [hdata] at hmem
      obtain ⟨c, hc, rfl⟩ := List.mem_map.mp hmem
      rw [Utf8.toNat_ofNat_of_lt (hascii c hc)]
      exact hascii c hc
    simp only [hchunk]
    rw [← List.map_flatMap, flatMap_sliced, take_pages, hdata, List.map_map]
    exact Utf8.map_ofNat_toNat hascii

theorem one_video_covers : Covers (fileListFragments "a.avi;U\n".toList 1024) "a.avi;U\n".toList :=
  fileListFragments_covers "a.avi;U\n".toList (by decide) fun c hc =>
    of_decide_eq_true (List.all_eq_true.mp (show ("a.avi;U\n".toList.all fun c => c.toNat < 128) = true by decide) c hc)

end PiBuddyCam.Timelapse
