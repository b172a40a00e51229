import PiBuddyCam.PyText

/-! What `str.replace` leaves of a text: pieces without the old text, with the new one between them. If the new
text stands in brackets, a text without brackets occurs in the result only in one of the pieces or between the
brackets. -/
namespace PyText

variable {old new cs : List Char}

theorem replaceFrom_skip (k : ℕ) (cs : List Char) : replaceFrom old new k cs = replaceFrom old new 0 (cs.drop k) := by
  induction cs generalizing k with
  | nil => rw [List.drop_nil]; cases k <;> rfl
  | cons c cs ih =>
    cases k with
    | zero => rfl
    | succ k => rw [replaceFrom, List.drop_succ_cons, ih]

theorem replaceFrom_split (hold : old ≠ []) (h : old <:+: cs) :
    ∃ before behind, cs = before ++ old ++ behind ∧ ¬ old <:+: before ∧
      replaceFrom old new 0 cs = before ++ new ++ replaceFrom old new 0 behind := by
  induction cs with
  | nil => exact absurd (List.infix_nil.mp h) hold
  | cons c cs ih =>
    rw [replaceFrom]
    split_ifs with hpre
    · obtain ⟨behind, hbehind⟩ := List.isPrefixOf_iff_prefix.mp hpre
      refine ⟨[], behind, hbehind.symm, fun hin => hold (List.infix_nil.mp hin), ?_⟩
      obtain ⟨d, old', rfl⟩ := List.exists_cons_of_ne_nil hold
      have hcs : old' ++ behind = cs := (List.cons.inj hbehind).2
      rw [replaceFrom_skip, ← hcs, List.length_cons, Nat.add_sub_cancel, List.drop_left, List.nil_append]
    · have hhead : ¬ old <+: c :: cs := fun hin => hpre (List.isPrefixOf_iff_prefix.mpr hin)
      have htail : old <:+: cs := (List.infix_cons_iff.mp h).resolve_left hhead
      obtain ⟨before, behind, hcs, hbefore, hreplaced⟩ := ih htail
      refine ⟨c :: before, behind, congrArg (c :: ·) hcs, fun hin => ?_, congrArg (c :: ·) hreplaced⟩
      rcases List.infix_cons_iff.mp hin with hstart | hlater
      · -- an occurrence at the start would have been found before
        have hlonger : c :: before <+: c :: cs := by
          rw [hcs, List.append_assoc]
          exact List.prefix_append (c :: before) (old ++ behind)
        exact hhead (hstart.trans hlonger)
      · exact hbefore hlater

theorem infix_of_replaceFrom {l r : Char} {mid x : List Char} (hold : old ≠ []) (hl : l ∉ x) (hr : r ∉ x)
    (h : x <:+: replaceFrom old (l :: (mid ++ [r])) 0 cs) :
    x <:+: mid ∨ ∃ piece, piece <:+: cs ∧ ¬ old <:+: piece ∧ x <:+: piece := by
  -- by the number of characters that are left
  obtain ⟨n, hn⟩ : ∃ n, cs.length = n := ⟨_, rfl⟩
  induction n using Nat.strong_induction_on generalizing cs with
  | _ n ih =>
    by_cases hin : old <:+: cs
    · obtain ⟨before, behind, hcs, hbefore, hreplaced⟩ := @replaceFrom_split old (l :: (mid ++ [r])) cs hold hin
      have hparts : replaceFrom old (l :: (mid ++ [r])) 0 cs =
          before ++ l :: (mid ++ r :: replaceFrom old (l :: (mid ++ [r])) 0 behind) := by
        rw [hreplaced]
        simp only [List.append_assoc, List.cons_append, List.nil_append]
      rw [hparts] at h
      rcases infix_of_notMem hl h with hfirst | h
      · have hpiece : before <:+: cs := ⟨[], old ++ behind, by rw [hcs, List.nil_append, List.append_assoc]⟩
        exact Or.inr ⟨before, hpiece, hbefore, hfirst⟩
      rcases infix_of_notMem hr h with hmid | hrest
      · exact Or.inl hmid
      · have hlen : behind.length < n := by
          have hpos := List.length_pos_of_ne_nil hold
          rw [← hn, hcs, List.length_append, List.length_append]
          omega
        rcases ih _ hlen hrest rfl with hmid | ⟨piece, hpiece, hpiece', hx⟩
        · exact Or.inl hmid
        · have hsuffix : behind <:+ cs := ⟨before ++ old, hcs.symm⟩
          exact Or.inr ⟨piece, hpiece.trans hsuffix.isInfix, hpiece', hx⟩
    · rw [replaceFrom_eq_self hin] at h
      exact Or.inr ⟨cs, List.infix_rfl, hin, h⟩

end PyText
