import RuleInduction.Proofs.Toml.Document
import RuleInduction.Settings.Document

namespace RuleInduction

namespace Settings

open Toml

structure Fits (s : Settings) : Prop where
  maxLiterals : ∀ n, s.maxLiterals = some n → n ≤ greatestInteger
  maxPredicates : ∀ n, s.maxPredicates = some (.count n) → n ≤ greatestInteger
  minExamples : ∀ n, s.minExamples = .count n → n ≤ greatestInteger
  clauses : s.clauses ≤ greatestInteger
  seed : ∀ n, s.seed = some n → n.toNat ≤ greatestInteger

structure NumbersOnly (s : Settings) : Prop where
  maxPredicates : ∀ x, s.maxPredicates = some (.fraction x) → x.isNaN = false
  minExamples : ∀ x, s.minExamples = .fraction x → x.isNaN = false
  sampleRatio : s.sampleRatio.isNaN = false

def ofLimit : Limit → Toml
  | .count n => .integer n
  | .fraction x => .float x

abbrev Cell := String × Option Toml

def cells (s : Settings) : List Cell := [
  ("criterion", s.criterion.map fun c => .text c.name),
  ("strategy", some (.text s.strategy.name)),
  ("max_literals", s.maxLiterals.map fun n : ℕ => .integer n),
  ("max_predicates", s.maxPredicates.map ofLimit),
  ("min_examples_learn", some (ofLimit s.minExamples)),
  ("n_clauses", some (.integer s.clauses)),
  ("sample_ratio", some (.float s.sampleRatio)),
  ("allow_recursion", some (.boolean s.recursive)),
  ("seed", s.seed.map fun n : UInt64 => .integer n.toNat)]

def entriesOf (cells : List Cell) : Entries :=
  cells.filterMap fun c => c.2.map (c.1, ·)

section Entries

variable {cs : List Cell} {c : Cell} {k : String} {v? : Option Toml}

theorem keys_entriesOf (cs : List Cell) :
    ((entriesOf cs).map Prod.fst).Sublist (cs.map Prod.fst) := by
  induction cs with
  | nil => exact List.Sublist.refl _
  | cons c cs ih =>
      rcases c with ⟨k, _ | v⟩
      · exact ih.cons k
      · exact ih.cons_cons k

theorem get?_cons_self (k : String) (v : Toml) (es : Entries) :
    Entries.get? ((k, v) :: es) k = some v := by
  simp [Entries.get?]

theorem get?_cons_ne {e : String × Toml} (h : e.1 ≠ k) (es : Entries) :
    Entries.get? (e :: es) k = es.get? k := by
  rw [Entries.get?, List.find?_cons_of_neg (by simpa using h)]
  rfl

theorem get?_entriesOf (hnodup : (cs.map Prod.fst).Nodup) (h : (k, v?) ∈ cs) :
    (entriesOf cs).get? k = v? := by
  induction cs with
  | nil => cases h
  | cons c cs ih =>
      obtain ⟨hfresh, hrest⟩ := List.nodup_cons.1 hnodup
      rcases List.mem_cons.1 h with rfl | hmem
      · cases v? with
        | none => exact get?_of_not_mem fun hk => hfresh ((keys_entriesOf cs).subset hk)
        | some v => exact get?_cons_self k v (entriesOf cs)
      · have hne : c.1 ≠ k := fun heq => hfresh (heq ▸ List.mem_map_of_mem hmem)
        rcases c with ⟨j, _ | v⟩
        · exact ih hrest hmem
        · exact (get?_cons_ne hne (entriesOf cs)).trans (ih hrest hmem)

variable {α : Type} {toToml : α → Toml} {read? : Toml → Option α}

theorem field_some (hnodup : (cs.map Prod.fst).Nodup) (hread : ∀ a, read? (toToml a) = some a)
    {a default : α} (h : (k, some (toToml a)) ∈ cs) :
    field (entriesOf cs) k default read? = some a := by
  rw [field, get?_entriesOf hnodup h]
  exact hread a

theorem field_option (hnodup : (cs.map Prod.fst).Nodup) (hread : ∀ a, read? (toToml a) = some a)
    {a? : Option α} (h : (k, a?.map toToml) ∈ cs) :
    field (entriesOf cs) k none (fun v => (read? v).map some) = some a? := by
  rw [field, get?_entriesOf hnodup h]
  cases a? with
  | none => rfl
  | some a => exact congrArg (Option.map some) (hread a)

end Entries

theorem ofName?_criterion (c : Criterion) :
    (nameOf? (.text c.name)).bind Criterion.ofName? = some c := by
  cases c <;> rfl

theorem ofName?_strategy (s : Strategy) : (nameOf? (.text s.name)).bind Strategy.ofName? = some s := by
  cases s <;> rfl

theorem countOf?_natCast (n : ℕ) : countOf? (.integer n) = some n := by
  simp [countOf?]

theorem seedOf?_toNat (n : UInt64) : (countOf? (.integer n.toNat)).map UInt64.ofNat = some n := by
  rw [countOf?_natCast, Option.map_some, UInt64.ofNat_toNat]

theorem limitOf?_ofLimit (l : Limit) : limitOf? (ofLimit l) = some l := by
  cases l with
  | count n => rw [ofLimit, limitOf?, countOf?_natCast]
  | fraction x => rfl

theorem nodup_cells (s : Settings) : (s.cells.map Prod.fst).Nodup := by
  simp only [cells, List.map_cons, List.map_nil]
  decide

theorem ofEntries?_cells (s : Settings) : ofEntries? (entriesOf s.cells) = some s := by
  have hkeys := s.nodup_cells
  have hcriterion : field (entriesOf s.cells) "criterion" none
      (fun v => ((nameOf? v).bind Criterion.ofName?).map some) = some s.criterion :=
    field_option hkeys ofName?_criterion (by simp [cells])
  have hstrategy : field (entriesOf s.cells) "strategy" Strategy.best
      (fun v => (nameOf? v).bind Strategy.ofName?) = some s.strategy :=
    field_some hkeys ofName?_strategy (by simp [cells])
  have hmaxLiterals : field (entriesOf s.cells) "max_literals" none
      (fun v => (countOf? v).map some) = some s.maxLiterals :=
    field_option hkeys countOf?_natCast (by simp [cells])
  have hmaxPredicates : field (entriesOf s.cells) "max_predicates" none
      (fun v => (limitOf? v).map some) = some s.maxPredicates :=
    field_option hkeys limitOf?_ofLimit (by simp [cells])
  have hminExamples : field (entriesOf s.cells) "min_examples_learn" (.count 1) limitOf? =
      some s.minExamples :=
    field_some hkeys limitOf?_ofLimit (by simp [cells])
  have hclauses : field (entriesOf s.cells) "n_clauses" 1 countOf? = some s.clauses :=
    field_some hkeys countOf?_natCast (by simp [cells])
  have hsampleRatio : field (entriesOf s.cells) "sample_ratio" 1.0 floatOf? = some s.sampleRatio :=
    field_some hkeys (fun x => show floatOf? (.float x) = some x from rfl) (by simp [cells])
  have hrecursive : field (entriesOf s.cells) "allow_recursion" false flagOf? = some s.recursive :=
    field_some hkeys (fun b => show flagOf? (.boolean b) = some b from rfl) (by simp [cells])
  have hseed : field (entriesOf s.cells) "seed" none
      (fun v => ((countOf? v).map UInt64.ofNat).map some) = some s.seed :=
    field_option hkeys seedOf?_toNat (by simp [cells])
  simp only [Option.map_map] at hseed
  simp only [ofEntries?, hcriterion, hstrategy, hmaxLiterals, hmaxPredicates, hminExamples, hclauses,
    hsampleRatio, hrecursive, hseed]
  rfl

inductive Shows : String → Cell → Prop
  | unset {k : String} : Shows "" (k, none)
  | set {k value : String} {v : Toml} (hvalue : Reads value.toList v) : Shows (line k value) (k, some v)

theorem toList_line (k value rest : String) : (line k value ++ rest).toList =
    k.toList ++ ' ' :: '=' :: ' ' :: (value.toList ++ '\n' :: rest.toList) := by
  simp [line]

theorem lines_join {texts : List String} {cs : List Cell} (hkeys : ∀ c ∈ cs, BareKey c.1.toList)
    (h : List.Forall₂ Shows texts cs) : Lines (String.join texts).toList (entriesOf cs) := by
  induction h with
  | nil => exact .nil
  | @cons text c texts cs htext htail ih =>
      obtain ⟨hkey, hrest⟩ := List.forall_mem_cons.1 hkeys
      rw [String.join_cons]
      cases htext with
      | unset => exact String.empty_append ▸ ih hrest
      | @set k value v hvalue =>
          have hline := Lines.cons hkey hvalue (ih hrest)
          rwa [String.ofList_toList, ← toList_line] at hline

theorem bareKey_cells (s : Settings) : ∀ c ∈ s.cells, BareKey c.1.toList := by
  have hkeys : ∀ k ∈ s.cells.map Prod.fst, k.toList ≠ [] ∧ k.toList.all isBareKeyChar = true := by
    simp only [cells, List.map_cons, List.map_nil]
    decide
  intro c hc
  obtain ⟨hne, hall⟩ := hkeys c.1 (List.mem_map_of_mem hc)
  exact ⟨hne, List.all_eq_true.1 hall⟩

theorem writeCount?_of_le {n : ℕ} (h : n ≤ greatestInteger) : writeCount? n = some (Nat.repr n) :=
  if_pos h

theorem le_of_writeCount? {n : ℕ} {text : String} (h : writeCount? n = some text) :
    n ≤ greatestInteger := by
  rw [writeCount?] at h
  split at h
  · assumption
  · cases h

theorem reads_count {n : ℕ} (h : n ≤ greatestInteger) : Reads (Nat.repr n).toList (.integer n) :=
  reads_integer (Nat.lt_of_le_pred (by decide) h)

variable {x : Float}

theorem writeFloat_infinite (h : x.isNaN = false) (hx : x.isFinite = false) :
    writeFloat x = Decimal.write x := by
  simp only [writeFloat, h, hx, Bool.false_and, Bool.false_eq_true, if_false]

theorem writeFloat_pointed (hx : x.isFinite = true) (hpoint : '.' ∈ (Decimal.write x).toList) :
    writeFloat x = Decimal.write x := by
  have hnan := FloatOrder.isNaN_of_isFinite hx
  have hcontains := List.contains_iff_mem.2 hpoint
  simp only [writeFloat, hnan, hcontains, Bool.not_true, Bool.and_false, Bool.false_eq_true, if_false]

theorem writeFloat_whole (hx : x.isFinite = true) (hpoint : '.' ∉ (Decimal.write x).toList) :
    writeFloat x = Decimal.write x ++ ".0" := by
  have hnan := FloatOrder.isNaN_of_isFinite hx
  have hcontains := Bool.eq_false_iff.2 (List.contains_iff_mem.not.2 hpoint)
  simp only [writeFloat, hnan, hcontains, hx, Bool.not_false, Bool.and_true, Bool.false_eq_true,
    if_false, if_true]

theorem point_not_mem_minus (x : Float) : '.' ∉ Decimal.minus x := by
  rcases minus_cases x with h | h <;> rw [h] <;> decide

-- A zero is added behind a whole number, so that it is not read as a count.
theorem reads_float (h : x.isNaN = false) : Reads (writeFloat x).toList (.float x) := by
  cases hx : x.isFinite with
  | false =>
      rw [writeFloat_infinite h hx, Decimal.toList_write h, hx]
      exact reads_infinite h hx
  | true =>
      obtain ⟨m, whole, fraction, htext, hwritten, hbits⟩ := Decimal.exists_written hx
      cases hwritten with
      | whole hleading =>
          have hpoint : '.' ∉ (Decimal.write x).toList := by
            rw [htext, List.mem_append, not_or]
            exact ⟨point_not_mem_minus x, not_mem_digits hleading.digits rfl⟩
          have hzero := (Decimal.bits_point_zero m).trans hbits
          rw [writeFloat_whole hx hpoint, String.toList_append, htext, List.append_assoc]
          exact Pointed.reads ⟨hleading, by decide, by decide⟩ hx hzero
      | point hleading hne hfraction =>
          rw [writeFloat_pointed hx (by simp [htext]), htext]
          exact Pointed.reads ⟨hleading, hne, hfraction⟩ hx hbits

theorem reads_name {name : String} (hne : name.toList ≠ []) (h : Unescaped name.toList) :
    Reads (writeName name).toList (.text name) := by
  have hread := reads_quoted hne h
  rw [String.ofList_toList] at hread
  simpa [writeName] using hread

section Write

variable {k : String}

theorem shows_option {α : Type} {write? : α → Option String} {toToml : α → Toml} {a? : Option α}
    (h : ∀ a, a? = some a → ∃ value, write? a = some value ∧ Reads value.toList (toToml a)) :
    ∃ text, lineOf? k write? a? = some text ∧ Shows text (k, a?.map toToml) := by
  cases a? with
  | none => exact ⟨"", rfl, .unset⟩
  | some a =>
      obtain ⟨value, hwrite, hread⟩ := h a rfl
      exact ⟨line k value, congrArg (Option.map (line k)) hwrite, .set hread⟩

theorem exists_count {n : ℕ} (h : n ≤ greatestInteger) :
    ∃ value, writeCount? n = some value ∧ Reads value.toList (.integer n) :=
  ⟨_, writeCount?_of_le h, reads_count h⟩

theorem exists_limit {l : Limit} (hcount : ∀ n, l = .count n → n ≤ greatestInteger)
    (hfraction : ∀ x, l = .fraction x → x.isNaN = false) :
    ∃ value, writeLimit? l = some value ∧ Reads value.toList (ofLimit l) := by
  cases l with
  | count n => exact exists_count (hcount n rfl)
  | fraction x => exact ⟨_, rfl, reads_float (hfraction x rfl)⟩

theorem reads_criterion (c : Criterion) : Reads (writeName c.name).toList (.text c.name) := by
  cases c <;> exact reads_name (by decide) (by simp [Unescaped, Criterion.name, isPlain])

theorem reads_strategy (s : Strategy) : Reads (writeName s.name).toList (.text s.name) := by
  cases s <;> exact reads_name (by decide) (by simp [Unescaped, Strategy.name, isPlain])

end Write

theorem write?_of_fits {s : Settings} (hfits : s.Fits) (hnumbers : s.NumbersOnly) :
    ∃ text, s.write? = some text ∧ Lines text.toList (entriesOf s.cells) := by
  obtain ⟨t₁, h₁, hcriterion⟩ : ∃ text,
      lineOf? "criterion" (fun c : Criterion => some (writeName c.name)) s.criterion = some text ∧
        Shows text ("criterion", s.criterion.map fun c => .text c.name) :=
    shows_option fun c _ => ⟨_, rfl, reads_criterion c⟩
  obtain ⟨t₂, h₂, hmaxLiterals⟩ : ∃ text,
      lineOf? "max_literals" writeCount? s.maxLiterals = some text ∧
        Shows text ("max_literals", s.maxLiterals.map fun n : ℕ => .integer n) :=
    shows_option fun n hn => exists_count (hfits.maxLiterals n hn)
  obtain ⟨t₃, h₃, hmaxPredicates⟩ : ∃ text,
      lineOf? "max_predicates" writeLimit? s.maxPredicates = some text ∧
        Shows text ("max_predicates", s.maxPredicates.map ofLimit) :=
    shows_option fun l hl => exists_limit (fun n hn => hfits.maxPredicates n (hn ▸ hl))
      fun x hx => hnumbers.maxPredicates x (hx ▸ hl)
  obtain ⟨v₁, h₄, hminExamples⟩ := exists_limit hfits.minExamples hnumbers.minExamples
  obtain ⟨v₂, h₅, hclauses⟩ := exists_count hfits.clauses
  obtain ⟨t₄, h₆, hseed⟩ : ∃ text,
      lineOf? "seed" (fun n : UInt64 => writeCount? n.toNat) s.seed = some text ∧
        Shows text ("seed", s.seed.map fun n : UInt64 => .integer n.toNat) :=
    shows_option fun n hn => exists_count (hfits.seed n hn)
  refine ⟨_, ?_, lines_join s.bareKey_cells (.cons hcriterion (.cons (.set (reads_strategy _))
    (.cons hmaxLiterals (.cons hmaxPredicates (.cons (.set hminExamples) (.cons (.set hclauses)
      (.cons (.set (reads_float hnumbers.sampleRatio)) (.cons (.set (reads_truth _))
        (.cons hseed .nil)))))))))⟩
  simp only [write?, h₁, h₂, h₃, h₄, h₅, h₆]
  rfl

theorem le_of_writeLimit? {n : ℕ} {text : String} (h : writeLimit? (.count n) = some text) :
    n ≤ greatestInteger :=
  le_of_writeCount? h

theorem exists_of_lineOf? {α : Type} {k : String} {write? : α → Option String} {a : α} {text : String}
    (h : lineOf? k write? (some a) = some text) : ∃ value, write? a = some value := by
  obtain ⟨value, hvalue, _⟩ := Option.map_eq_some_iff.1 h
  exact ⟨value, hvalue⟩

theorem fits_of_write? {s : Settings} {text : String} (h : s.write? = some text) : s.Fits := by
  simp only [write?, Option.bind_eq_bind, Option.bind_eq_some_iff] at h
  obtain ⟨_, _, _, hmaxLiterals, _, hmaxPredicates, _, hminExamples, _, hclauses, _, hseed, _⟩ := h
  constructor
  case maxLiterals =>
    intro n hn
    obtain ⟨value, hvalue⟩ := exists_of_lineOf? (hn ▸ hmaxLiterals)
    exact le_of_writeCount? hvalue
  case maxPredicates =>
    intro n hn
    obtain ⟨value, hvalue⟩ := exists_of_lineOf? (hn ▸ hmaxPredicates)
    exact le_of_writeLimit? hvalue
  case minExamples => exact fun n hn => le_of_writeLimit? (hn ▸ hminExamples)
  case clauses => exact le_of_writeCount? hclauses
  case seed =>
    intro n hn
    obtain ⟨value, hvalue⟩ := exists_of_lineOf? (hn ▸ hseed)
    exact le_of_writeCount? hvalue

theorem parse?_of_fits {s : Settings} (hfits : s.Fits) (hnumbers : s.NumbersOnly) :
    ∃ text, s.write? = some text ∧ ∀ path, parseAs path text = .ok s := by
  obtain ⟨text, hwrite, hlines⟩ := write?_of_fits hfits hnumbers
  have hread : Toml.parse? text = some (entriesOf s.cells) :=
    parse?_of_lines hlines (s.nodup_cells.sublist (keys_entriesOf s.cells))
  refine ⟨text, hwrite, fun path => ?_⟩
  simp only [parseAs, hread, ofEntries?_cells]

end Settings

end RuleInduction
