import Mathlib.Data.String.Basic

/-! `urllib.parse.urlsplit` and what its result says about the authority. -/
namespace PyUrl

def partition (c : Char) (cs : List Char) : List Char × Bool × List Char :=
  (cs.takeWhile (· ≠ c), cs.contains c, (cs.dropWhile (· ≠ c)).drop 1)

def rpartition (c : Char) (cs : List Char) : List Char × Bool × List Char :=
  let (after, found, before) := partition c cs.reverse
  if found then (before.reverse, true, after.reverse) else ([], false, cs)

/-- What the library finds of an authority with brackets, whether an address is in them, and of one that is not ASCII,
whether its normal form has no separator of its own. -/
structure Checks where
  bracketed : List Char → Bool
  normal : List Char → Bool

structure Split where
  scheme : List Char
  netloc : List Char
  path : List Char
  query : List Char
  fragment : List Char
  deriving DecidableEq

def isSchemeChar (c : Char) : Bool := c.isAlphanum || c = '+' || c = '-' || c = '.'

def splitScheme (url : List Char) : List Char × List Char :=
  let (scheme, found, rest) := partition ':' url
  if found && scheme.head?.any Char.isAlpha && scheme.all isSchemeChar then (scheme.map Char.toLower, rest) else ([], url)

def isAuthority (c : Char) : Bool := c ≠ '/' && c ≠ '?' && c ≠ '#'

def splitNetloc : List Char → List Char × List Char
  | '/' :: '/' :: url => (url.takeWhile isAuthority, url.dropWhile isAuthority)
  | url => ([], url)

def validNetloc (k : Checks) (netloc : List Char) : Bool :=
  netloc.contains '[' = netloc.contains ']' && (!netloc.contains '[' || k.bracketed netloc) &&
    (netloc.all (fun c => c.toNat < 128) || k.normal netloc)

/-- `urlsplit(url)`, with `none` for its `ValueError`. -/
def urlsplit (k : Checks) (url : String) : Option Split :=
  let url := (url.toList.dropWhile fun c => c.toNat ≤ 0x20).filter fun c => c ≠ '\t' && c ≠ '\r' && c ≠ '\n'
  let (scheme, url) := splitScheme url
  let (netloc, url) := splitNetloc url
  let (url, _, fragment) := partition '#' url
  let (path, _, query) := partition '?' url
  if validNetloc k netloc then some { scheme, netloc, path, query, fragment } else none

namespace Split

variable (s : Split)

def username : Option (List Char) :=
  let (userinfo, found, _) := rpartition '@' s.netloc
  if found then some (partition ':' userinfo).1 else none

def password : Option (List Char) :=
  let (userinfo, found, _) := rpartition '@' s.netloc
  let (_, given, password) := partition ':' userinfo
  if found && given then some password else none

def hostinfo : List Char × List Char :=
  let (_, _, hostinfo) := rpartition '@' s.netloc
  let (_, found, bracketed) := partition '[' hostinfo
  if found then
    let (hostname, _, port) := partition ']' bracketed
    (hostname, (partition ':' port).2.2)
  else
    let (hostname, _, port) := partition ':' hostinfo
    (hostname, port)

def hostname : List Char := s.hostinfo.1

/-- The port, if there is one; reading it raises where this is `none`. -/
def port : Option (Option ℕ) :=
  let text := s.hostinfo.2
  if text = [] then some none
  else if text.all Char.isDigit && text.length ≤ 4300 then
    if Nat.ofDigitChars 10 text 0 ≤ 65535 then some (some (Nat.ofDigitChars 10 text 0)) else none
  else none

end Split

end PyUrl
