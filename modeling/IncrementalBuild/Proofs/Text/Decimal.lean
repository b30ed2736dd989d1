import IncrementalBuild.Text.Decimal
/-!
# Numbers are read as they are written

## Main definitions

* `Decimal.Denotes` — a text is a number in decimal.

## Main results

* `Decimal.isDigit_of_mem_toString` — a number is written with digits alone.
* `Decimal.read?_toString` — a number below the bound is read back.
* `Decimal.read?_eq_some` — what is read is what the text denotes, if that is below the bound.
-/

namespace IncrementalBuild.Decimal

/-- A number is written with digits alone. -/
theorem isDigit_of_mem_toString {n : Nat} {c : Char} (h : c ∈ (toString n).toList) :
    c.isDigit = true := by
  rw [Nat.toString_eq_repr, Nat.toList_repr] at h
  exact Nat.isDigit_of_mem_toDigits (by decide) (by decide) h

/-- A number is written with at least one digit. -/
theorem toString_ne_nil (n : Nat) : (toString n).toList ≠ [] := by
  rw [Nat.toString_eq_repr, Nat.toList_repr]
  exact Nat.toDigits_ne_nil

/-- A character that is no digit does not stand in a number. -/
theorem not_mem_toString {c : Char} (h : c.isDigit = false) (n : Nat) :
    c ∉ (toString n).toList := by
  intro hmem
  rw [isDigit_of_mem_toString hmem] at h
  cases h

/-- A number of one word has at most ten digits. -/
theorem length_toString_le {n : Nat} (h : n < word) : (toString n).toList.length ≤ 10 := by
  have hword : n < 10 ^ 10 := Nat.lt_trans h (by decide)
  rw [Nat.toString_eq_repr, Nat.toList_repr]
  exact (Nat.length_toDigits_le_iff (by decide) (by decide)).mpr hword

/-- The value of a digit. -/
theorem digit?_of_isDigit {c : Char} (h : c.isDigit = true) :
    digit? c = some (c.toNat - '0'.toNat) := by
  rw [Char.isDigit, Bool.and_eq_true, decide_eq_true_eq, decide_eq_true_eq] at h
  exact if_pos h

/-- Digits are read as the number that they continue. -/
theorem digits?_of_forall {cs : List Char} (h : ∀ c ∈ cs, c.isDigit = true) (acc : Nat) :
    digits? acc cs = some (Nat.ofDigitChars 10 cs acc) := by
  induction cs generalizing acc with
  | nil => rw [digits?, Nat.ofDigitChars_nil]
  | cons c cs ih =>
    have hrest := ih (fun d hd => h d (List.mem_cons_of_mem c hd))
      (acc * 10 + (c.toNat - '0'.toNat))
    rw [digits?, digit?_of_isDigit (h c List.mem_cons_self), Nat.ofDigitChars_cons,
      Nat.mul_comm 10 acc]
    exact hrest

/-- Without a sign, all characters have to be digits. -/
theorem read?_cons {c : Char} (hc : c ≠ '+') (bound : Nat) (cs : List Char) :
    read? bound (c :: cs) =
      (digits? 0 (c :: cs)).bind fun n => if n < bound then some n else none := by
  simp [read?, hc]

/-- **Round trip.** A number below the bound is read as it was written. -/
theorem read?_toString {n bound : Nat} (h : n < bound) :
    read? bound (toString n).toList = some n := by
  have hdigits : digits? 0 (toString n).toList = some n := by
    rw [digits?_of_forall (fun _ => isDigit_of_mem_toString), Nat.toString_eq_repr,
      Nat.toList_repr, Nat.ofDigitChars_ten_toDigits]
  have hplus := not_mem_toString (by decide : '+'.isDigit = false) n
  cases hcs : (toString n).toList with
  | nil => exact absurd hcs (toString_ne_nil n)
  | cons c cs =>
    rw [hcs] at hdigits hplus
    have hc : c ≠ '+' := fun heq => hplus (heq ▸ List.mem_cons_self)
    rw [read?_cons hc, hdigits]
    exact if_pos h

/-! ### What is read -/

/-- A text is a number in decimal: one digit or more, after at most one plus sign. -/
def Denotes (cs : List Char) (n : Nat) : Prop :=
  ∃ digits, (cs = digits ∨ cs = '+' :: digits) ∧ digits ≠ [] ∧
    (∀ c ∈ digits, c.isDigit = true) ∧ Nat.ofDigitChars 10 digits 0 = n

/-- Characters that are no digits have no value. -/
theorem isDigit_of_digit? {c : Char} {d : Nat} (h : digit? c = some d) : c.isDigit = true := by
  rw [digit?, Option.ite_none_right_eq_some] at h
  rw [Char.isDigit, Bool.and_eq_true, decide_eq_true_eq, decide_eq_true_eq]
  exact h.1

/-- Digits, and nothing else, are read as the number that they continue. -/
theorem digits?_eq_some {cs : List Char} {acc n : Nat} : digits? acc cs = some n ↔
    (∀ c ∈ cs, c.isDigit = true) ∧ Nat.ofDigitChars 10 cs acc = n := by
  have hall : ∀ acc, digits? acc cs = some n → ∀ c ∈ cs, c.isDigit = true := by
    induction cs with
    | nil => exact fun _ _ _ hc => absurd hc List.not_mem_nil
    | cons c cs ih =>
        intro acc h
        rw [digits?] at h
        obtain ⟨d, hd, hrest⟩ := Option.bind_eq_some_iff.mp h
        exact List.forall_mem_cons.mpr ⟨isDigit_of_digit? hd, ih _ hrest⟩
  constructor
  · intro h
    exact ⟨hall acc h, Option.some.inj ((digits?_of_forall (hall acc h) acc).symm.trans h)⟩
  · rintro ⟨hdigits, rfl⟩
    exact digits?_of_forall hdigits acc

/-- A text without a plus sign denotes a number if it is made of digits. -/
theorem denotes_of_ne_plus {c : Char} {cs : List Char} {n : Nat} (hc : c ≠ '+') :
    Denotes (c :: cs) n ↔ digits? 0 (c :: cs) = some n := by
  rw [digits?_eq_some]
  constructor
  · rintro ⟨digits, hcs | hcs, -, hall, hn⟩
    · exact hcs ▸ ⟨hall, hn⟩
    · exact absurd (List.cons.inj hcs).1 hc
  · rintro ⟨hall, hn⟩
    exact ⟨_, .inl rfl, List.cons_ne_nil c cs, hall, hn⟩

/-- After a plus sign there have to be digits. -/
theorem denotes_plus {cs : List Char} {n : Nat} :
    Denotes ('+' :: cs) n ↔ cs ≠ [] ∧ digits? 0 cs = some n := by
  rw [digits?_eq_some]
  constructor
  · rintro ⟨digits, rfl | hcs, hne, hall, hn⟩
    · exact absurd (hall '+' List.mem_cons_self) (by decide)
    · obtain rfl := (List.cons.inj hcs).2
      exact ⟨hne, hall, hn⟩
  · rintro ⟨hne, hall, hn⟩
    exact ⟨cs, .inr rfl, hne, hall, hn⟩

/-- **What is read** is what the text denotes, if that is below the bound. -/
theorem read?_eq_some {bound n : Nat} {cs : List Char} :
    read? bound cs = some n ↔ Denotes cs n ∧ n < bound := by
  have hbelow (read : Option Nat) : (read.bind fun n => if n < bound then some n else none) =
      some n ↔ read = some n ∧ n < bound := by
    cases read with
    | none => simp
    | some m =>
        rw [Option.bind_some, Option.ite_none_right_eq_some, and_comm]
        exact and_congr_right fun h => by rw [← Option.some.inj h]
  cases cs with
  | nil =>
      refine ⟨fun h => absurd h (by simp [read?]), ?_⟩
      rintro ⟨⟨digits, rfl | hcs, hne, -⟩, -⟩
      · exact absurd rfl hne
      · cases hcs
  | cons c cs =>
      by_cases hc : c = '+'
      · subst hc
        rw [denotes_plus, and_assoc, ← hbelow]
        cases cs with
        | nil => simp [read?]
        | cons d ds => simp [read?]
      · rw [read?_cons hc, denotes_of_ne_plus hc, hbelow]

end IncrementalBuild.Decimal
