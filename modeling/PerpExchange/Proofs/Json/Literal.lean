import Mathlib.Algebra.Order.Ring.Nat
import Mathlib.Tactic.NormNum
import Mathlib.Tactic.Ring
import PerpExchange.Json.Reader

/-!
Numbers and texts that were written can be read.

An integer is written with its digits, and a text with what cannot stand in quotes escaped. The
readers take exactly these characters and give the integer and the text back, whatever follows.
Digits would go on with a number, so behind one there must stand a mark or nothing.
-/

namespace PerpExchange.Json

variable {rest ds : List Char} {n : ℕ}

/-! ### Digits -/

/-- Nothing, or one of the marks that stand behind a value. -/
def Follows (rest : List Char) : Prop := ∀ c ∈ rest.head?, c = ',' ∨ c = ']' ∨ c = '\x7d'

lemma follows_nil : Follows [] := nofun

lemma Follows.cases (h : Follows rest) :
    rest = [] ∨ ∃ tail, rest = ',' :: tail ∨ rest = ']' :: tail ∨ rest = '\x7d' :: tail := by
  cases rest with
  | nil => exact .inl rfl
  | cons c tail =>
    right
    obtain rfl | rfl | rfl := h c rfl
    · exact ⟨tail, .inl rfl⟩
    · exact ⟨tail, .inr (.inl rfl)⟩
    · exact ⟨tail, .inr (.inr rfl)⟩

lemma spanDigits_append (hds : ∀ c ∈ ds, c.isDigit) (hrest : Follows rest) :
    spanDigits (ds ++ rest) = (ds, rest) := by
  have hstop : rest.takeWhile Char.isDigit = [] ∧ rest.dropWhile Char.isDigit = rest := by
    obtain rfl | ⟨tail, rfl | rfl | rfl⟩ := hrest.cases <;> exact ⟨rfl, rfl⟩
  rw [spanDigits, List.takeWhile_append_of_pos hds, List.dropWhile_append_of_pos hds, hstop.1, hstop.2,
    List.append_nil]

lemma isDigit_of_mem_toDigits {c : Char} (h : c ∈ Nat.toDigits 10 n) : c.isDigit :=
  Nat.isDigit_of_mem_toDigits (by norm_num) le_rfl h

lemma digitsValue_toDigits (n : ℕ) : digitsValue (Nat.toDigits 10 n) = n :=
  Nat.ofDigitChars_ten_toDigits

lemma eq_zero_of_digitChar : ∀ n < 10, Nat.digitChar n = '0' → n = 0 := by decide

/-- No digits but those of zero start with a zero. -/
lemma eq_zero_of_head?_toDigits (h : (Nat.toDigits 10 n).head? = some '0') : n = 0 := by
  induction n using Nat.strongRecOn with
  | ind n ih =>
    rw [Nat.toDigits_eq_if (by norm_num)] at h
    split at h
    · next hlt => exact eq_zero_of_digitChar n hlt (Option.some.inj h)
    · next hge =>
      obtain ⟨d, ds, hds⟩ := List.exists_cons_of_ne_nil (Nat.toDigits_ne_nil (n := n / 10) (b := 10))
      rw [hds] at h
      have := ih (n / 10) (by omega) (by rw [hds]; exact h)
      omega

/-! ### Integers -/

lemma wholeDigits?_append (hrest : Follows rest) :
    wholeDigits? (Nat.toDigits 10 n ++ rest) = some (Nat.toDigits 10 n, rest) := by
  have hzero := eq_zero_of_head?_toDigits (n := n)
  have hne : Nat.toDigits 10 n ≠ [] := Nat.toDigits_ne_nil
  have hsingle : Nat.toDigits 10 0 = ['0'] := rfl
  rw [wholeDigits?, spanDigits_append (fun _ => isDigit_of_mem_toDigits) hrest]
  generalize hds : Nat.toDigits 10 n = ds at *
  split
  · next heq => exact absurd (congrArg Prod.fst heq) hne
  · next heq =>
    cases heq
    rfl
  · next hnot heq =>
    cases heq
    rw [if_neg]
    intro hhead
    obtain rfl := hzero hhead
    exact hnot (by rw [← hds, hsingle])

lemma fraction?_follows (hrest : Follows rest) : fraction? rest = some (none, rest) := by
  obtain rfl | ⟨tail, rfl | rfl | rfl⟩ := hrest.cases <;> rfl

lemma exponent?_follows (hrest : Follows rest) : exponent? rest = some (none, rest) := by
  obtain rfl | ⟨tail, rfl | rfl | rfl⟩ := hrest.cases <;> rfl

lemma mul_pow_le_foldl (ds : List Char) (m : ℕ) :
    m * 10 ^ ds.length ≤ ds.foldl (fun n c => 10 * n + (c.toNat - '0'.toNat)) m := by
  induction ds generalizing m with
  | nil => simp
  | cons c rest ih =>
    calc m * 10 ^ (c :: rest).length
        = 10 * m * 10 ^ rest.length := by rw [List.length_cons, pow_succ]; ring
      _ ≤ (10 * m + (c.toNat - '0'.toNat)) * 10 ^ rest.length :=
        Nat.mul_le_mul_right _ (Nat.le_add_right _ _)
      _ ≤ _ := ih _

/-- The digits that are kept, with a zero for each one left out, are no more than all of them. -/
lemma significand_mul_le (m : ℕ) (ds : List Char) :
    (significand m ds).1 * 10 ^ (significand m ds).2.length ≤
      ds.foldl (fun n c => 10 * n + (c.toNat - '0'.toNat)) m := by
  induction ds generalizing m with
  | nil => simp [significand]
  | cons c rest ih =>
    rw [significand]
    split
    · exact ih _
    · exact mul_pow_le_foldl (c :: rest) m

lemma nearest_le (n : ℕ) : Double.nearest n ≤ 2 * n := by
  rcases Nat.eq_zero_or_pos n with rfl | hpos
  · rfl
  have hplace : Double.lastPlace n ≤ n :=
    (Nat.pow_le_pow_right (by norm_num) (Nat.sub_le _ _)).trans (Nat.log2_self_le hpos.ne')
  have hquotient : Double.nearestQuotient n (Double.lastPlace n) ≤ n / Double.lastPlace n + 1 := by
    dsimp only [Double.nearestQuotient]
    split <;> omega
  calc Double.nearest n
      ≤ (n / Double.lastPlace n + 1) * Double.lastPlace n := Nat.mul_le_mul_right _ hquotient
    _ = n / Double.lastPlace n * Double.lastPlace n + Double.lastPlace n := by ring
    _ ≤ n + n := Nat.add_le_add (Nat.div_mul_le_self _ _) hplace
    _ = 2 * n := by ring

/-- Each factor at most doubles when it is rounded, and what is far below the bound stays below. -/
lemma isInfinite_eq_false {power : ℕ} (h : n * 10 ^ power < 2 ^ 128) :
    Double.isInfinite n power = false := by
  rcases Nat.eq_zero_or_pos n with rfl | hpos
  · rfl
  have hpower : ¬308 < power := by
    intro hlong
    have hle : 10 ^ 39 ≤ 10 ^ power := Nat.pow_le_pow_right (by norm_num) (by omega)
    have hmul := Nat.le_mul_of_pos_left (10 ^ power) hpos
    have hlt : 2 ^ 128 < 10 ^ 39 := by norm_num
    omega
  have hbound : 4 * 2 ^ 128 ≤ Double.bound := by decide +kernel
  have hproduct : Double.nearest n * Double.nearest (10 ^ power) < Double.bound := by
    calc Double.nearest n * Double.nearest (10 ^ power)
        ≤ 2 * n * (2 * 10 ^ power) := Nat.mul_le_mul (nearest_le n) (nearest_le _)
      _ = 4 * (n * 10 ^ power) := by ring
      _ < 4 * 2 ^ 128 := Nat.mul_lt_mul_of_pos_left h (by norm_num)
      _ ≤ Double.bound := hbound
  simp [Double.isInfinite, hpower, hproduct]

/-- An integer of the size that is written is never beyond the doubles. -/
lemma isBeyondDoubles_toDigits (h : n < 2 ^ 128) :
    isBeyondDoubles (Nat.toDigits 10 n) [] 0 = false := by
  have hle := significand_mul_le 0 (Nat.toDigits 10 n)
  have hvalue : (Nat.toDigits 10 n).foldl (fun n c => 10 * n + (c.toNat - '0'.toNat)) 0 = n :=
    digitsValue_toDigits n
  rw [hvalue] at hle
  have hfinite := isInfinite_eq_false (hle.trans_lt h)
  simp [isBeyondDoubles, significand, hfinite]

def integerChars (negative : Bool) (n : ℕ) : List Char :=
  (if negative then ['-'] else []) ++ Nat.toDigits 10 n

lemma number?_append (negative : Bool) (h : n < 2 ^ 128) (hrest : Follows rest) :
    number? (integerChars negative n ++ rest) = some (.integer negative n, rest) := by
  have hwhole := wholeDigits?_append (n := n) hrest
  have hfinite := isBeyondDoubles_toDigits h
  have hvalue := digitsValue_toDigits n
  have hdigits : ∀ c ∈ Nat.toDigits 10 n, c.isDigit := fun _ => isDigit_of_mem_toDigits
  obtain ⟨d, ds, hds⟩ := List.exists_cons_of_ne_nil (Nat.toDigits_ne_nil (n := n) (b := 10))
  rw [hds] at hwhole hfinite hvalue hdigits
  have hd : d ≠ '-' := by
    rintro rfl
    exact absurd (hdigits '-' List.mem_cons_self) (by decide)
  cases negative <;>
    simp_all [integerChars, number?, fraction?_follows hrest, exponent?_follows hrest]

/-! ### Texts -/

lemma hexValue?_hexDigit : ∀ d < 16, hexValue? (hexDigit d) = some d := by decide

/-- How a character is read: most stand for themselves, and a control character without an escape of
its own is given by its code. -/
def pieceOf (c : Char) : Piece :=
  if c.toNat < 32 ∧ c ≠ '\n' ∧ c ≠ '\r' ∧ c ≠ '\t' ∧ c.toNat ≠ 8 ∧ c.toNat ≠ 12 then .unit c.toNat
  else .char c

lemma unit?_control {code : ℕ} (h : code < 32) :
    unit? '0' '0' (hexDigit (code / 16)) (hexDigit (code % 16)) = some code := by
  have hzero : hexValue? '0' = some 0 := by decide
  simp only [unit?, hzero, hexValue?_hexDigit (code / 16) (by omega),
    hexValue?_hexDigit (code % 16) (by omega), Option.bind_eq_bind, Option.bind_some]
  exact congrArg some (by omega)

lemma pieces?_escape {c : Char} {tail : List Char} {ps : List Piece}
    (h : pieces? tail = some (ps, rest)) :
    pieces? (escape c ++ tail) = some (pieceOf c :: ps, rest) := by
  by_cases hcontrol : c.toNat < 32 ∧ c ≠ '\n' ∧ c ≠ '\r' ∧ c ≠ '\t' ∧ c.toNat ≠ 8 ∧ c.toNat ≠ 12
  · have hquote : c ≠ '"' := by rintro rfl; simp at hcontrol
    have hslash : c ≠ '\\' := by rintro rfl; simp at hcontrol
    simp [escape, pieceOf, hcontrol, hquote, hslash, pieces?, unit?_control hcontrol.1, h]
  rw [pieceOf, if_neg hcontrol]
  have hof : ∀ code, c.toNat = code → c = Char.ofNat code := fun code hcode => by
    rw [← hcode, Char.ofNat_toNat]
  -- with an escape of its own, or as it stands
  by_cases hshort : c = '"' ∨ c = '\\' ∨ c = '\n' ∨ c = '\r' ∨ c = '\t' ∨ c = Char.ofNat 8 ∨
      c = Char.ofNat 12
  · obtain rfl | rfl | rfl | rfl | rfl | rfl | rfl := hshort <;>
      simp [escape, pieces?, shortEscape?, h]
  push Not at hshort
  obtain ⟨hquote, hslash, hn, hr, ht, h8, h12⟩ := hshort
  have h8' : c.toNat ≠ 8 := fun hcode => h8 (hof 8 hcode)
  have h12' : c.toNat ≠ 12 := fun hcode => h12 (hof 12 hcode)
  have hplain : ¬c.toNat < 32 := fun hlt => hcontrol ⟨hlt, hn, hr, ht, h8', h12'⟩
  simp [escape, pieces?, hquote, hslash, hn, hr, ht, h8', h12', hplain, h]

/-- A code below the surrogates gives its character, whatever comes next. -/
lemma assemble?_control {code : ℕ} (h : code < 32) (ps : List Piece) :
    assemble? (.unit code :: ps) = (assemble? ps).map (Char.ofNat code :: ·) := by
  have hhigh : isHighSurrogate code = false := by simp [isHighSurrogate]; omega
  have hlow : isLowSurrogate code = false := by simp [isLowSurrogate]; omega
  rcases ps with _ | ⟨_ | low, rest⟩ <;> simp [assemble?, hhigh, hlow]

lemma assemble?_pieceOf (s : List Char) : assemble? (s.map pieceOf) = some s := by
  induction s with
  | nil => rfl
  | cons c rest ih =>
    rw [List.map_cons, pieceOf]
    split
    · next hcontrol => rw [assemble?_control hcontrol.1, ih, Char.ofNat_toNat]; rfl
    · simp [assemble?, ih]

lemma pieces?_flatMap_escape (s : List Char) :
    pieces? (s.flatMap escape ++ '"' :: rest) = some (s.map pieceOf, rest) := by
  induction s with
  | nil => rfl
  | cons c tail ih =>
    rw [List.flatMap_cons, List.append_assoc]
    exact pieces?_escape ih

/-- **A text that was written in quotes is read back**, up to the closing quote. -/
lemma string?_escaped (s : String) :
    string? (s.toList.flatMap escape ++ '"' :: rest) = some (some s, rest) := by
  rw [string?, pieces?_flatMap_escape]
  simp [assemble?_pieceOf]

end PerpExchange.Json
