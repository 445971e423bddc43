import Mathlib.Data.List.TakeWhile
import RuleInduction.Line

namespace RuleInduction.Line

open Text

theorem forall_head?_cons {P : Char → Prop} {c : Char} {cs : List Char} (h : P c) :
    ∀ d ∈ (c :: cs).head?, P d := by
  rintro d hd
  cases hd
  exact h

section Exact

variable {p : Char → Bool} {word rest : List Char}

theorem takeWhile_exact (h : ∀ c ∈ word, p c = true) (hrest : ∀ c ∈ rest.head?, p c = false) :
    (word ++ rest).takeWhile p = word := by
  rw [List.takeWhile_append_of_pos h]
  cases rest with
  | nil => simp
  | cons c cs => simp [hrest c rfl]

theorem dropWhile_exact (h : ∀ c ∈ word, p c = true) (hrest : ∀ c ∈ rest.head?, p c = false) :
    (word ++ rest).dropWhile p = rest := by
  rw [List.dropWhile_append_of_pos h]
  cases rest with
  | nil => rfl
  | cons c cs => simp [hrest c rfl]

theorem append_exact {word' rest' : List Char} (h : ∀ c ∈ word, p c = true)
    (h' : ∀ c ∈ word', p c = true) (hrest : ∀ c ∈ rest.head?, p c = false)
    (hrest' : ∀ c ∈ rest'.head?, p c = false) (heq : word ++ rest = word' ++ rest') :
    word = word' ∧ rest = rest' := by
  constructor
  · rw [← takeWhile_exact h hrest, heq, takeWhile_exact h' hrest']
  · rw [← dropWhile_exact h hrest, heq, dropWhile_exact h' hrest']

end Exact

def Blanks (cs : List Char) : Prop :=
  ∀ c ∈ cs, isBlank c = true

def Word (cs : List Char) : Prop :=
  ∀ c ∈ cs, isIdentChar c = true

instance (cs : List Char) : Decidable (Blanks cs) :=
  List.decidableBAll _ cs

instance (cs : List Char) : Decidable (Word cs) :=
  List.decidableBAll _ cs

def Padded (token cs : List Char) : Prop :=
  ∃ before after, Blanks before ∧ Blanks after ∧ cs = before ++ (token ++ after)

def Closed (cs : List Char) : Prop :=
  ∀ c ∈ cs.head?, isBlank c = false ∧ isIdentChar c = false

variable {cs text token rest : List Char}

theorem isIdentChar_of_isBlank {c : Char} (h : isBlank c = true) : isIdentChar c = false := by
  simp only [isBlank, Bool.or_eq_true, decide_eq_true_eq] at h
  rcases h with ((rfl | rfl) | rfl) | rfl <;> decide +kernel

theorem isBlank_of_isIdentChar {c : Char} (h : isIdentChar c = true) : isBlank c = false := by
  by_contra hblank
  rw [isIdentChar_of_isBlank (Bool.of_not_eq_false hblank)] at h
  cases h

theorem blanks_nil : Blanks [] := by
  intro c hc
  cases hc

theorem padded_self (token : List Char) : Padded token token :=
  ⟨[], [], blanks_nil, blanks_nil, (List.append_nil token).symm⟩

theorem blanks_takeWhile (cs : List Char) : Blanks (cs.takeWhile isBlank) :=
  fun _ hc => List.mem_takeWhile_imp hc

theorem word_takeWhile (cs : List Char) : Word (cs.takeWhile isIdentChar) :=
  fun _ hc => List.mem_takeWhile_imp hc

theorem takeWhile_append_skipBlanks (cs : List Char) : cs.takeWhile isBlank ++ skipBlanks cs = cs :=
  List.takeWhile_append_dropWhile

theorem skipBlanks_append (h : Blanks text) (hrest : ∀ c ∈ rest.head?, isBlank c = false) :
    skipBlanks (text ++ rest) = rest :=
  dropWhile_exact h hrest

theorem skipBlanks_eq_nil_iff : skipBlanks cs = [] ↔ Blanks cs :=
  List.dropWhile_eq_nil_iff

theorem Closed.isBlank_eq (h : Closed rest) : ∀ c ∈ rest.head?, isBlank c = false :=
  fun c hc => (h c hc).1

theorem Closed.isIdentChar_eq (h : Closed rest) : ∀ c ∈ rest.head?, isIdentChar c = false :=
  fun c hc => (h c hc).2

theorem closed_of_delimiter {c : Char} (h : c = '(' ∨ c = ',' ∨ c = ')') : Closed (c :: rest) := by
  refine forall_head?_cons ?_
  rcases h with rfl | rfl | rfl <;> decide +kernel

-- An empty word leaves no gap behind it: all the blanks are then skipped before it.
theorem exists_gap (h : Padded token text) (htoken : Word token) (hrest : Closed rest) :
    ∃ gap, Blanks gap ∧ skipBlanks (text ++ rest) = token ++ (gap ++ rest) := by
  obtain ⟨before, after, hbefore, hafter, rfl⟩ := h
  cases token with
  | nil =>
      refine ⟨[], blanks_nil, ?_⟩
      have hall : Blanks (before ++ after) := by
        intro c hc
        exact (List.mem_append.1 hc).elim (hbefore c) (hafter c)
      exact skipBlanks_append hall hrest.isBlank_eq
  | cons c cs =>
      refine ⟨after, hafter, ?_⟩
      have hc : isBlank c = false := isBlank_of_isIdentChar (htoken c List.mem_cons_self)
      rw [List.append_assoc, List.append_assoc]
      exact skipBlanks_append hbefore (forall_head?_cons hc)

theorem isIdentChar_head?_gap {gap : List Char} (hgap : Blanks gap) (hrest : Closed rest) :
    ∀ c ∈ (gap ++ rest).head?, isIdentChar c = false := by
  cases gap with
  | nil => exact hrest.isIdentChar_eq
  | cons b bs => exact forall_head?_cons (isIdentChar_of_isBlank (hgap b List.mem_cons_self))

theorem takeWhile_of_padded (h : Padded token text) (htoken : Word token) (hrest : Closed rest) :
    (skipBlanks (text ++ rest)).takeWhile isIdentChar = token := by
  obtain ⟨gap, hgap, heq⟩ := exists_gap h htoken hrest
  rw [heq]
  exact takeWhile_exact htoken (isIdentChar_head?_gap hgap hrest)

theorem skipBlanks_dropWhile_of_padded (h : Padded token text) (htoken : Word token)
    (hrest : Closed rest) :
    skipBlanks ((skipBlanks (text ++ rest)).dropWhile isIdentChar) = rest := by
  obtain ⟨gap, hgap, heq⟩ := exists_gap h htoken hrest
  rw [heq, dropWhile_exact htoken (isIdentChar_head?_gap hgap hrest)]
  exact skipBlanks_append hgap hrest.isBlank_eq

theorem exists_padded (cs : List Char) :
    ∃ text, Padded ((skipBlanks cs).takeWhile isIdentChar) text ∧
      cs = text ++ skipBlanks ((skipBlanks cs).dropWhile isIdentChar) := by
  let tail := (skipBlanks cs).dropWhile isIdentChar
  have hafter : tail.takeWhile isBlank ++ skipBlanks tail = tail := takeWhile_append_skipBlanks tail
  have htoken : (skipBlanks cs).takeWhile isIdentChar ++ tail = skipBlanks cs :=
    List.takeWhile_append_dropWhile
  refine ⟨_, ⟨cs.takeWhile isBlank, tail.takeWhile isBlank, blanks_takeWhile cs,
    blanks_takeWhile tail, rfl⟩, ?_⟩
  rw [List.append_assoc, List.append_assoc, hafter, htoken, takeWhile_append_skipBlanks]

theorem name_of_padded (h : Padded token text) (htoken : IsIdentifier token) (hrest : Closed rest) :
    name (text ++ rest) = .ok (token, rest) := by
  simp only [name, takeWhile_of_padded h htoken.2 hrest,
    skipBlanks_dropWhile_of_padded h htoken.2 hrest]
  cases token with
  | nil => exact absurd rfl htoken.1
  | cons c cs => rfl

theorem padded_of_name (h : name cs = .ok (token, rest)) :
    ∃ text, Padded token text ∧ IsIdentifier token ∧ cs = text ++ rest := by
  obtain ⟨text, htext, hcs⟩ := exists_padded cs
  simp only [name] at h
  split at h
  · cases h
  · next c word hword =>
      cases h
      rw [hword] at htext
      exact ⟨text, htext, ⟨List.cons_ne_nil _ _, hword ▸ word_takeWhile _⟩, hcs⟩

theorem expect_self (c : Char) (rest : List Char) : expect c (c :: rest) = .ok rest :=
  if_pos rfl

theorem expect_of_padded {c : Char} (h : Padded [c] cs) (hc : isBlank c = false) :
    ∃ after, Blanks after ∧ expect c (skipBlanks cs) = .ok after := by
  obtain ⟨before, after, hbefore, hafter, rfl⟩ := h
  have hstart : skipBlanks (before ++ c :: after) = c :: after :=
    skipBlanks_append hbefore (forall_head?_cons hc)
  exact ⟨after, hafter, (congrArg (expect c) hstart).trans (expect_self c after)⟩

theorem padded_of_expect {c : Char} (h : expect c (skipBlanks cs) = .ok rest)
    (hrest : Blanks rest) : Padded [c] cs := by
  refine ⟨_, rest, blanks_takeWhile cs, hrest, ?_⟩
  rw [List.singleton_append, ← eq_cons_of_expect h, takeWhile_append_skipBlanks]

theorem eq_nil_of_finish {α : Type} {value result : α} (h : finish value rest = .ok result) :
    rest = [] ∧ result = value := by
  cases rest with
  | nil => cases h; exact ⟨rfl, rfl⟩
  | cons c tail => cases h

theorem committed_of_expect {c : Char} {stop : Stop} (h : expect c cs = .error stop) :
    stop.committed = false := by
  cases cs with
  | nil => cases h; rfl
  | cons d ds =>
      simp only [expect] at h
      split at h <;> cases h
      rfl

end RuleInduction.Line

namespace RuleInduction.Text

variable {c : Char} {cs : List Char}

def spaces : List Nat :=
  List.range' 0x09 5 ++ List.range' 0x2000 11 ++
    [0x20, 0x85, 0xA0, 0x1680, 0x2028, 0x2029, 0x202F, 0x205F, 0x3000]

theorem toNat_mem_spaces (h : isSpace c = true) : c.toNat ∈ spaces := by
  simp only [isSpace, Bool.or_eq_true, Bool.and_eq_true, decide_eq_true_eq] at h
  simp only [spaces, List.mem_append, List.mem_range'_1, List.mem_cons, List.not_mem_nil, or_false]
  grind

theorem isSpace_eq_false {p : Char → Bool} (hp : ∀ n ∈ spaces, p (Char.ofNat n) = false)
    (h : p c = true) : isSpace c = false := by
  refine Bool.eq_false_iff.2 fun hspace => ?_
  have hc := hp c.toNat (toNat_mem_spaces hspace)
  rw [Char.ofNat_toNat, h] at hc
  cases hc

theorem inRanges_eq (ranges : Array (Nat × Nat)) (n : Nat) :
    inRanges ranges n = ranges.toList.any fun r => r.1 ≤ n && n ≤ r.2 :=
  Array.any_toList.symm

-- The tables are searched as lists: the kernel is slow on the search through an array.
theorem isIdentChar_spaces : ∀ n ∈ spaces, isIdentChar (Char.ofNat n) = false := by
  simp only [isIdentChar, isAlphanumeric, inRanges_eq]
  decide +kernel

theorem isSpace_of_isIdentChar (h : isIdentChar c = true) : isSpace c = false :=
  isSpace_eq_false isIdentChar_spaces h

theorem dropWhile_isSpace (h : ∀ c ∈ cs.head?, isSpace c = false) : cs.dropWhile isSpace = cs := by
  cases cs with
  | nil => rfl
  | cons c rest => rw [List.dropWhile_cons, h c rfl, if_neg Bool.false_ne_true]

theorem trim_eq_self (hhead : ∀ c ∈ cs.head?, isSpace c = false)
    (hlast : ∀ c ∈ cs.getLast?, isSpace c = false) : trim cs = cs := by
  rw [← List.head?_reverse] at hlast
  rw [trim, dropWhile_isSpace hhead, dropWhile_isSpace hlast, List.reverse_reverse]

end RuleInduction.Text
