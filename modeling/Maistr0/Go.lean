import Mathlib

/-!
# The Go built-ins the model rests on

Clock readings, `uint64` counters and the few `strings` functions that the stores and the task
manager call. Text is Lean's `String`, so it is always valid UTF-8.
-/

namespace Maistr0.Go

/-- `time.Time` in nanoseconds after the zero time, which is therefore `0`. -/
abbrev Time := Int

/-- What `time.Now()` returns: never the zero time. -/
abbrev Instant := { t : Time // t ≠ 0 }

theorem Time.two_ne_zero : (2 : Time) ≠ 0 := by decide

/-- A `time.Duration`, in nanoseconds. -/
abbrev Duration := Int

def milliseconds (d : Duration) : Int := d.tdiv 1000000

/-- `t.Sub(u)`, which saturates. -/
def sub (t u : Time) : Duration := max (-2 ^ 63) (min (2 ^ 63 - 1) (t - u))

/-- The readings a call takes from the clock, in order. -/
abbrev Clocks := Nat → Instant

/-- `n++` on a `uint64`. -/
def incr (n : Nat) : Nat := if n = 2 ^ 64 - 1 then 0 else n + 1

theorem incr_of_lt {n : Nat} (h : n + 1 < 2 ^ 64) : incr n = n + 1 := by
  unfold incr
  split <;> omega

theorem incr_of_ne_zero {n : Nat} (h : incr n ≠ 0) : incr n = n + 1 := by
  unfold incr at h ⊢
  split at h
  · exact absurd rfl h
  · rw [if_neg (by assumption)]

/-- `len(s)`: the bytes of the UTF-8 encoding. -/
def len (s : String) : Nat := (s.toList.map Char.utf8Size).sum

/-- The runes that fit into `n` bytes. -/
def takeBytes : Nat → List Char → List Char
  | _, [] => []
  | n, c :: cs => if c.utf8Size ≤ n then c :: takeBytes (n - c.utf8Size) cs else []

def hasPrefix (s pre : String) : Bool := pre.toList.isPrefixOf s.toList

def contains (s part : String) : Bool := s.toList.tails.any part.toList.isPrefixOf

/-- The runes `unicode.IsSpace` accepts. -/
def isSpace (c : Char) : Bool :=
  let n := c.toNat
  (9 ≤ n && n ≤ 13) || n == 0x20 || n == 0x85 || n == 0xA0 || n == 0x1680 || (0x2000 ≤ n && n ≤ 0x200a) ||
    n == 0x2028 || n == 0x2029 || n == 0x202f || n == 0x205f || n == 0x3000

def trimSpace (s : String) : String :=
  String.ofList (((s.toList.dropWhile isSpace).reverse.dropWhile isSpace).reverse)

/-- A rune-wise lower-casing. `unicode.ToLower` is one; what the stores rely on is that lowering a
lowered text changes nothing. -/
class CaseFolding where
  lower : Char → Char
  lower_lower : ∀ c, lower (lower c) = lower c

def toLower [CaseFolding] (s : String) : String := String.ofList (s.toList.map CaseFolding.lower)

theorem toLower_eq_empty [CaseFolding] {s : String} : toLower s = "" ↔ s = "" := by
  unfold toLower
  constructor
  · intro h
    have hlist := congrArg String.toList h
    rw [String.toList_ofList] at hlist
    exact String.toList_eq_nil_iff.mp (List.map_eq_nil_iff.mp hlist)
  · rintro rfl
    rfl

/-- Lower-casing of the ASCII letters, enough for concrete runs. -/
instance asciiFolding : CaseFolding where
  lower := Char.toLower
  lower_lower c := by
    unfold Char.toLower
    split
    · rename_i hupper
      -- an upper-case letter moved up by 32 is past the upper-case range
      rw [dif_neg]
      rintro ⟨-, hle⟩
      obtain ⟨hge, hlt⟩ := hupper
      simp [UInt32.le_iff_toNat_le] at hge hlt hle
      omega
    · rfl

end Maistr0.Go
