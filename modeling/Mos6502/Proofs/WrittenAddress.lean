import Mathlib.Data.List.Forall2
import Mathlib.Data.List.Induction
import Mathlib.Data.Nat.Digits.Defs
import Mos6502.Address
import Mos6502.Text.Hex

/-!
# The grammar of written addresses

A written number is a mark or none, a plus sign or none, and hexadecimal digits (`Written`).  A text
that is not written for an address has a fault in a definite place (`Faulty`): nothing is left
behind its mark, or some character is the first that is no digit or makes the number too large
(`Stops`).  None of this mentions how a text is read.  Reading accepts just what is written for an
address, and reports just the fault that there is (`parse_follows_grammar`); so an address is read
back from the four digits that it is printed with (`parse_word`).

Digits are read from the left with the value of those read so far carried along, so the inductions
here are on the last digit.
-/

namespace Mos6502.Address

variable {text body numeral before after : List Char} {c : Char} {d value : Nat} {reason : Reason}

/-! ## Digits -/

/-- A character stands for a digit, in lower or in upper case. -/
def Spells (c : Char) (d : Nat) : Prop := d < 16 ∧ (c = Nat.digitChar d ∨ c = Hex.digit d)

instance (c : Char) (d : Nat) : Decidable (Spells c d) := inferInstanceAs (Decidable (_ ∧ _))

theorem digit?_of_spells (h : Spells c d) : digit? c = some d := by
  have hdigits : ∀ d < 16, digit? (Nat.digitChar d) = some d ∧ digit? (Hex.digit d) = some d := by
    decide
  obtain ⟨hd, rfl | rfl⟩ := h
  · exact (hdigits d hd).1
  · exact (hdigits d hd).2

/-- A character in a row of digits stands for its place there. -/
theorem spells_of_between {first last : Char} (low : Nat) (hc : first ≤ c ∧ c ≤ last)
    (hrow : ∀ k ≤ last.toNat - first.toNat, Spells (Char.ofNat (first.toNat + k)) (k + low)) :
    Spells c (c.toNat - first.toNat + low) := by
  have hfirst : first.toNat ≤ c.toNat := hc.1
  have hlast : c.toNat ≤ last.toNat := hc.2
  have hk := hrow (c.toNat - first.toNat) (Nat.sub_le_sub_right hlast _)
  rwa [Nat.add_sub_cancel' hfirst, Char.ofNat_toNat] at hk

theorem spells_of_digit? (h : digit? c = some d) : Spells c d := by
  unfold digit? at h
  split_ifs at h with hdecimal hupper hlower
  · obtain rfl := Option.some.inj h
    exact spells_of_between 0 hdecimal (by decide)
  · obtain rfl := Option.some.inj h
    exact spells_of_between 10 hupper (by decide)
  · obtain rfl := Option.some.inj h
    exact spells_of_between 10 hlower (by decide)

theorem digit?_eq_some_iff : digit? c = some d ↔ Spells c d := ⟨spells_of_digit?, digit?_of_spells⟩

theorem digit?_eq_none_iff : digit? c = none ↔ ∀ d, ¬ Spells c d :=
  Option.eq_none_iff_forall_ne_some.trans (forall_congr' fun _ => not_congr digit?_eq_some_iff)

theorem rightUnique_spells : Relator.RightUnique Spells := fun _ _ _ h h' =>
  Option.some.inj ((digit?_of_spells h).symm.trans (digit?_of_spells h'))

theorem digits_cons_of_spells (h : Spells c d) :
    digits value (c :: after) =
      if 0xFFFF < 16 * value + d then .error .tooLarge else digits (16 * value + d) after := by
  rw [digits, digit?_of_spells h]

theorem digits_cons_of_not_spells (h : ∀ d, ¬ Spells c d) :
    digits value (c :: after) = .error .invalidDigit := by
  rw [digits, digit?_eq_none_iff.mpr h]

/-! ## Numerals -/

/-- Any number of digits, and what they are worth with the lowest one last. -/
def Numeral (text : List Char) (value : Nat) : Prop :=
  ∃ ds, List.Forall₂ Spells text.reverse ds ∧ Nat.ofDigits 16 ds = value

namespace Numeral

theorem nil : Numeral [] 0 := ⟨[], .nil, rfl⟩

theorem concat (h : Numeral text value) (hc : Spells c d) :
    Numeral (text ++ [c]) (16 * value + d) := by
  obtain ⟨ds, hds, rfl⟩ := h
  refine ⟨d :: ds, ?_, ?_⟩
  · rw [List.reverse_concat]
    exact .cons hc hds
  · rw [Nat.ofDigits_cons, Nat.add_comm]

theorem of_concat (h : Numeral (text ++ [c]) value) :
    ∃ high d, Numeral text high ∧ Spells c d ∧ value = 16 * high + d := by
  obtain ⟨ds, hds, rfl⟩ := h
  rw [List.reverse_concat, List.forall₂_cons_left_iff] at hds
  obtain ⟨d, ds, hc, hds, rfl⟩ := hds
  exact ⟨Nat.ofDigits 16 ds, d, ⟨ds, hds, rfl⟩, hc, by rw [Nat.ofDigits_cons, Nat.add_comm]⟩

theorem unique {value' : Nat} (h : Numeral text value) (h' : Numeral text value') :
    value = value' := by
  obtain ⟨ds, hds, rfl⟩ := h
  obtain ⟨ds', hds', rfl⟩ := h'
  exact congrArg _ (List.right_unique_forall₂' rightUnique_spells hds hds')

theorem exists_spells (h : Numeral text value) (hc : c ∈ text) : ∃ d, Spells c d := by
  induction text using List.reverseRecOn generalizing value with
  | nil => cases hc
  | append_singleton text last ih =>
      obtain ⟨high, d, hhigh, hlast, -⟩ := h.of_concat
      obtain hc | hc := List.mem_append.mp hc
      · exact ih hhigh hc
      · exact ⟨d, List.mem_singleton.mp hc ▸ hlast⟩

/-- The digits of an address are read to the last one, and reading goes on behind them. -/
theorem digits_append (h : Numeral before value) (fits : value ≤ 0xFFFF) :
    digits 0 (before ++ after) = digits value after := by
  induction before using List.reverseRecOn generalizing value after with
  | nil => rw [List.nil_append, h.unique nil]
  | append_singleton before c ih =>
      obtain ⟨high, d, hhigh, hc, rfl⟩ := h.of_concat
      -- The digits before the last one are worth no more, so none of them was one too many.
      have hfits : high ≤ 0xFFFF := by omega
      rw [List.append_assoc, ih hhigh hfits, List.singleton_append, digits_cons_of_spells hc,
        if_neg (Nat.not_lt.mpr fits)]

theorem digits_eq (h : Numeral text value) (fits : value ≤ 0xFFFF) : digits 0 text = .ok value := by
  rw [← List.append_nil text, h.digits_append fits, digits]

end Numeral

/-- Digits of an address, and behind them a character that is no digit or is one too many. -/
inductive Stops : List Char → Reason → Prop
  | invalidDigit {before : List Char} {value : Nat} {c : Char} (read : Numeral before value)
      (fits : value ≤ 0xFFFF) (wrong : ∀ d, ¬ Spells c d) (after : List Char) :
      Stops (before ++ c :: after) .invalidDigit
  | tooLarge {before : List Char} {value larger : Nat} {c : Char} (read : Numeral before value)
      (fits : value ≤ 0xFFFF) (next : Numeral (before ++ [c]) larger) (exceeds : 0xFFFF < larger)
      (after : List Char) : Stops (before ++ c :: after) .tooLarge

theorem Stops.append (h : Stops text reason) (more : List Char) : Stops (text ++ more) reason := by
  cases h with
  | invalidDigit read fits wrong after =>
      rw [List.append_assoc, List.cons_append]
      exact .invalidDigit read fits wrong (after ++ more)
  | tooLarge read fits next exceeds after =>
      rw [List.append_assoc, List.cons_append]
      exact .tooLarge read fits next exceeds (after ++ more)

theorem Stops.digits_eq (h : Stops text reason) : digits 0 text = .error reason := by
  cases h with
  | invalidDigit read fits wrong after =>
      rw [read.digits_append fits, digits_cons_of_not_spells wrong]
  | tooLarge read fits next exceeds after =>
      obtain ⟨high, d, hhigh, hc, rfl⟩ := next.of_concat
      obtain rfl := read.unique hhigh
      rw [read.digits_append fits, digits_cons_of_spells hc, if_pos exceeds]

/-- Characters are digits of an address to the last one, or there is a first at which they stop. -/
theorem numeral_or_stops (text : List Char) :
    (∃ value ≤ 0xFFFF, Numeral text value) ∨ ∃ reason, Stops text reason := by
  induction text using List.reverseRecOn with
  | nil => exact .inl ⟨0, Nat.zero_le _, .nil⟩
  | append_singleton text c ih =>
      obtain ⟨value, fits, read⟩ | ⟨reason, h⟩ := ih
      · by_cases hc : ∃ d, Spells c d
        · obtain ⟨d, hd⟩ := hc
          obtain hlt | hle := Nat.lt_or_ge 0xFFFF (16 * value + d)
          · exact .inr ⟨_, .tooLarge read fits (read.concat hd) hlt []⟩
          · exact .inl ⟨_, hle, read.concat hd⟩
        · exact .inr ⟨_, .invalidDigit read fits (not_exists.mp hc) []⟩
      · exact .inr ⟨reason, h.append [c]⟩

theorem digits_eq_ok_iff : digits 0 text = .ok value ↔ Numeral text value ∧ value ≤ 0xFFFF := by
  refine ⟨fun h => ?_, fun ⟨read, fits⟩ => read.digits_eq fits⟩
  obtain ⟨value', fits, read⟩ | ⟨reason, hstops⟩ := numeral_or_stops text
  · obtain rfl := Except.ok.inj ((read.digits_eq fits).symm.trans h)
    exact ⟨read, fits⟩
  · cases hstops.digits_eq.symm.trans h

theorem digits_eq_error_iff : digits 0 text = .error reason ↔ Stops text reason := by
  refine ⟨fun h => ?_, Stops.digits_eq⟩
  obtain ⟨value, fits, read⟩ | ⟨reason', hstops⟩ := numeral_or_stops text
  · cases (read.digits_eq fits).symm.trans h
  · obtain rfl := Except.error.inj (hstops.digits_eq.symm.trans h)
    exact hstops

/-! ## Marks and signs -/

def marks : List (List Char) := [['$'], ['0', 'x'], ['0', 'X']]

/-- What is left of a text without its mark, if it has one. -/
inductive Unmarked : List Char → List Char → Prop
  | marked {mark : List Char} (body : List Char) (h : mark ∈ marks) : Unmarked (mark ++ body) body
  | plain {text : List Char} (h : ∀ mark ∈ marks, ¬ mark <+: text) : Unmarked text text

theorem eq_of_mem_marks {mark : List Char} (h : mark ∈ marks) :
    mark = ['$'] ∨ mark = ['0', 'x'] ∨ mark = ['0', 'X'] := by
  simpa only [marks, List.mem_cons, List.not_mem_nil, or_false] using h

theorem unmarked_dropMark (text : List Char) : Unmarked text (dropMark text) := by
  fun_cases dropMark text with
  | case1 rest => exact .marked rest (by decide : ['$'] ∈ marks)
  | case2 rest => exact .marked rest (by decide : ['0', 'x'] ∈ marks)
  | case3 rest => exact .marked rest (by decide : ['0', 'X'] ∈ marks)
  | case4 _ hdollar hlower hupper =>
      refine .plain fun mark hmark ⟨rest, htext⟩ => ?_
      obtain rfl | rfl | rfl := eq_of_mem_marks hmark
      · exact hdollar rest htext.symm
      · exact hlower rest htext.symm
      · exact hupper rest htext.symm

namespace Unmarked

theorem dropMark_eq (h : Unmarked text body) : dropMark text = body := by
  cases h with
  | marked body hmark => obtain rfl | rfl | rfl := eq_of_mem_marks hmark <;> rfl
  | plain h =>
      fun_cases dropMark text with
      | case1 rest => exact absurd (List.prefix_append ['$'] rest) (h _ (by decide))
      | case2 rest => exact absurd (List.prefix_append ['0', 'x'] rest) (h _ (by decide))
      | case3 rest => exact absurd (List.prefix_append ['0', 'X'] rest) (h _ (by decide))
      | case4 => rfl

theorem exists_mark (h : Unmarked text body) :
    ∃ mark, (mark = [] ∨ mark ∈ marks) ∧ text = mark ++ body := by
  cases h with
  | marked body hmark => exact ⟨_, .inr hmark, rfl⟩
  | plain => exact ⟨[], .inl rfl, rfl⟩

end Unmarked

/-- What is left of a text without its plus sign, which is one only if something follows it. -/
inductive Unsigned : List Char → List Char → Prop
  | signed {numeral : List Char} (h : numeral ≠ []) : Unsigned ('+' :: numeral) numeral
  | plain {text : List Char} (h : ∀ numeral ≠ [], text ≠ '+' :: numeral) : Unsigned text text

theorem exists_unsigned (body : List Char) : ∃ numeral, Unsigned body numeral := by
  by_cases h : ∃ numeral ≠ [], body = '+' :: numeral
  · obtain ⟨numeral, hne, rfl⟩ := h
    exact ⟨numeral, .signed hne⟩
  · push Not at h
    exact ⟨body, .plain h⟩

namespace Unsigned

theorem number_eq (h : Unsigned body numeral) (hbody : body ≠ []) :
    number body = digits 0 numeral := by
  cases h with
  | signed hne =>
      obtain ⟨c, rest, rfl⟩ := List.exists_cons_of_ne_nil hne
      rw [number]
  | plain h =>
      fun_cases number body with
      | case1 => exact absurd rfl hbody
      | case2 c rest => exact absurd rfl (h (c :: rest) (List.cons_ne_nil c rest))
      | case3 => rfl

theorem eq_nil_iff (h : Unsigned body numeral) : numeral = [] ↔ body = [] := by
  cases h with
  | signed hne => exact iff_of_false hne (List.cons_ne_nil _ _)
  | plain => exact Iff.rfl

theorem exists_sign (h : Unsigned body numeral) :
    ∃ sign, (sign = [] ∨ sign = ['+']) ∧ body = sign ++ numeral := by
  cases h with
  | signed => exact ⟨['+'], .inr rfl, rfl⟩
  | plain => exact ⟨[], .inl rfl, rfl⟩

end Unsigned

/-! ## Written numbers and faults -/

/-- What is written for a number: a mark or none, a plus sign or none, and at least one digit. -/
inductive Written : List Char → Nat → Prop
  | intro {mark sign numeral : List Char} {value : Nat} (hmark : mark = [] ∨ mark ∈ marks)
      (hsign : sign = [] ∨ sign = ['+']) (hne : numeral ≠ []) (h : Numeral numeral value) :
      Written (mark ++ (sign ++ numeral)) value

/-- What is wrong with a text that is not written for an address. -/
inductive Faulty : List Char → Reason → Prop
  | empty {text : List Char} (hmark : Unmarked text []) : Faulty text .empty
  | stops {text body numeral : List Char} {reason : Reason} (hmark : Unmarked text body)
      (hbody : body ≠ []) (hsign : Unsigned body numeral) (h : Stops numeral reason) :
      Faulty text reason

/-- In every mark is a character that is in no sign and in no numeral. -/
theorem exists_mem_mark {mark : List Char} (h : mark ∈ marks) :
    ∃ c ∈ mark, c ≠ '+' ∧ ∀ d, ¬ Spells c d := by
  obtain rfl | rfl | rfl := eq_of_mem_marks h
  · exact ⟨'$', by decide, by decide, digit?_eq_none_iff.mp rfl⟩
  · exact ⟨'x', by decide, by decide, digit?_eq_none_iff.mp rfl⟩
  · exact ⟨'X', by decide, by decide, digit?_eq_none_iff.mp rfl⟩

theorem unmarked_of_numeral {sign : List Char} (hsign : sign = [] ∨ sign = ['+'])
    (h : Numeral numeral value) : Unmarked (sign ++ numeral) (sign ++ numeral) := by
  refine .plain fun mark hmark hstart => ?_
  obtain ⟨c, hc, hplus, hwrong⟩ := exists_mem_mark hmark
  obtain hc | hc := List.mem_append.mp (hstart.subset hc)
  · obtain rfl | rfl := hsign
    · cases hc
    · exact hplus (List.mem_singleton.mp hc)
  · obtain ⟨d, hd⟩ := h.exists_spells hc
    exact hwrong d hd

theorem unsigned_of_numeral {sign : List Char} (hsign : sign = [] ∨ sign = ['+'])
    (hne : numeral ≠ []) (h : Numeral numeral value) : Unsigned (sign ++ numeral) numeral := by
  obtain rfl | rfl := hsign
  · refine .plain fun rest _ hrest => ?_
    have hplus : '+' ∈ numeral := by
      rw [← List.nil_append numeral, hrest]
      exact List.mem_cons_self
    obtain ⟨d, hd⟩ := h.exists_spells hplus
    exact digit?_eq_none_iff.mp rfl d hd
  · exact .signed hne

/-- A written number is the same without its mark and without its sign: neither can be taken for the
beginning of the digits. -/
theorem written_iff :
    Written text value ↔ ∃ body numeral, Unmarked text body ∧ Unsigned body numeral ∧
      numeral ≠ [] ∧ Numeral numeral value := by
  constructor
  · rintro @⟨mark, sign, numeral, _, hmark, hsign, hne, h⟩
    refine ⟨sign ++ numeral, numeral, ?_, unsigned_of_numeral hsign hne h, hne, h⟩
    obtain rfl | hmark := hmark
    · rw [List.nil_append]
      exact unmarked_of_numeral hsign h
    · exact .marked _ hmark
  · rintro ⟨body, numeral, hmark, hsign, hne, h⟩
    obtain ⟨mark, hm, rfl⟩ := hmark.exists_mark
    obtain ⟨sign, hs, rfl⟩ := hsign.exists_sign
    exact .intro hm hs hne h

/-! ## Reading -/

theorem number_eq_ok_iff :
    number (dropMark text) = .ok value ↔ Written text value ∧ value ≤ 0xFFFF := by
  rw [written_iff]
  constructor
  · intro h
    have hbody : dropMark text ≠ [] := by
      intro hnil
      rw [hnil, number] at h
      cases h
    obtain ⟨numeral, hsign⟩ := exists_unsigned (dropMark text)
    rw [hsign.number_eq hbody, digits_eq_ok_iff] at h
    have hne : numeral ≠ [] := mt hsign.eq_nil_iff.mp hbody
    exact ⟨⟨_, numeral, unmarked_dropMark text, hsign, hne, h.1⟩, h.2⟩
  · rintro ⟨⟨body, numeral, hmark, hsign, hne, h⟩, fits⟩
    rw [hmark.dropMark_eq, hsign.number_eq (mt hsign.eq_nil_iff.mpr hne), h.digits_eq fits]

theorem number_eq_error_iff : number (dropMark text) = .error reason ↔ Faulty text reason := by
  constructor
  · intro h
    have hmark := unmarked_dropMark text
    by_cases hbody : dropMark text = []
    · rw [hbody, number] at h
      obtain rfl := Except.error.inj h
      exact .empty (hbody ▸ hmark)
    · obtain ⟨numeral, hsign⟩ := exists_unsigned (dropMark text)
      rw [hsign.number_eq hbody, digits_eq_error_iff] at h
      exact .stops hmark hbody hsign h
  · intro h
    cases h with
    | empty hmark => rw [hmark.dropMark_eq, number]
    | stops hmark hbody hsign h => rw [hmark.dropMark_eq, hsign.number_eq hbody, h.digits_eq]

/-- The address that is read is worth what the digits are. -/
theorem map_parse_eq_ok_iff {text : String} :
    (parse text).map BitVec.toNat = .ok value ↔ number (dropMark text.toList) = .ok value := by
  rw [parse]
  cases h : number (dropMark text.toList) with
  | ok read =>
      have hread : read < 65536 := Nat.lt_succ_of_le (number_eq_ok_iff.mp h).2
      simp [Except.map, Nat.mod_eq_of_lt hread]
  | error reason => simp [Except.map]

theorem parse_eq_error_iff {text : String} {e : Invalid} :
    parse text = .error e ↔
      e.text = text ∧ number (dropMark text.toList) = .error e.reason := by
  obtain ⟨text', reason'⟩ := e
  rw [parse]
  cases number (dropMark text.toList) with
  | ok value => simp
  | error reason => simp [eq_comm]

/-- So many digits of a number, the lowest ones, are worth its remainder. -/
theorem numeral_digits (width n : Nat) : Numeral (Hex.digits width n) (n % 16 ^ width) := by
  induction width generalizing n with
  | zero =>
      rw [Nat.pow_zero, Nat.mod_one]
      exact .nil
  | succ width ih =>
      have hlast : Spells (Hex.digit (n % 16)) (n % 16) := ⟨Nat.mod_lt n (by decide), .inr rfl⟩
      have hvalue : n % 16 ^ (width + 1) = 16 * (n / 16 % 16 ^ width) + n % 16 := by
        rw [Nat.pow_succ, Nat.mul_comm, Nat.mod_mul, Nat.add_comm]
      rw [hvalue]
      exact (ih (n / 16)).concat hlast

/-- An address is read back from its four digits, behind a mark or without one. -/
theorem parse_word {mark : List Char} (hmark : mark = [] ∨ mark ∈ marks) (w : Word) :
    parse (String.ofList mark ++ Hex.word w) = .ok w := by
  have hdigits : Numeral (Hex.digits 4 w.toNat) w.toNat := by
    have hmod : w.toNat % 16 ^ 4 = w.toNat := Nat.mod_eq_of_lt w.isLt
    have hlow := numeral_digits 4 w.toNat
    rwa [hmod] at hlow
  have hne : Hex.digits 4 w.toNat ≠ [] := List.ne_nil_of_length_pos (by simp)
  have hwritten : Written (String.ofList mark ++ Hex.word w).toList w.toNat := by
    rw [String.toList_append, String.toList_ofList, Hex.word, String.toList_ofList,
      ← List.nil_append (Hex.digits 4 w.toNat)]
    exact .intro hmark (.inl rfl) hne hdigits
  have hread := map_parse_eq_ok_iff.mpr (number_eq_ok_iff.mpr ⟨hwritten, Nat.le_of_lt_succ w.isLt⟩)
  cases h : parse (String.ofList mark ++ Hex.word w) with
  | ok read =>
      rw [h] at hread
      exact congrArg _ (BitVec.eq_of_toNat_eq (Except.ok.inj hread))
  | error e =>
      rw [h] at hread
      cases hread

/-- **Reading follows the grammar.**  A text is read as an address exactly if it is written for that
number and the number is an address.  Every other text is refused, with the fault that it has. -/
theorem parse_follows_grammar (text : String) :
    (∀ value, (parse text).map BitVec.toNat = .ok value ↔
        Written text.toList value ∧ value ≤ 0xFFFF) ∧
      ∀ e, parse text = .error e ↔ e.text = text ∧ Faulty text.toList e.reason := by
  constructor
  · intro value
    rw [map_parse_eq_ok_iff, number_eq_ok_iff]
  · intro e
    rw [parse_eq_error_iff, number_eq_error_iff]

end Mos6502.Address
