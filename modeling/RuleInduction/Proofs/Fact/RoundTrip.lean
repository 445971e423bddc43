import RuleInduction.Proofs.Line
import RuleInduction.Proofs.Decimal.Positional
import RuleInduction.Proofs.Fact.Line

namespace RuleInduction.Fact

open Text Line

structure WellFormed (f : Fact) : Prop where
  predicate : IsIdentifier f.predicate.toList
  ne_nil : f.arguments ≠ []
  arguments : ∀ a ∈ f.arguments, IsIdentifier a.toList
  weight : f.weight.isFinite = true

theorem arguments_intercalate {arguments : List (List Char)} (hne : arguments ≠ [])
    (h : ∀ a ∈ arguments, Word a) : Arguments ([','].intercalate arguments) arguments := by
  induction arguments with
  | nil => exact absurd rfl hne
  | cons argument rest ih =>
      have hword : Word argument := h argument List.mem_cons_self
      cases rest with
      | nil =>
          rw [List.intercalate_singleton]
          exact .last (padded_self argument) hword
      | cons next more =>
          rw [List.intercalate_cons_cons]
          have htail := ih (List.cons_ne_nil next more) fun a ha => h a (List.mem_cons_of_mem _ ha)
          rw [List.append_assoc]
          exact .more (padded_self argument) hword htail

theorem toList_render (f : Fact) : f.render.toList =
    (Decimal.write f.weight).toList ++ ':' :: ':' :: (f.predicate.toList ++ '(' ::
      ([','].intercalate (f.arguments.map String.toList) ++ ')' :: ['.'])) := by
  simp [render, String.toList_intercalate]

theorem wide_render {f : Fact} (h : WellFormed f) : Wide f.render.toList
    ⟨some f.weight, f.predicate.toList, f.arguments.map String.toList⟩ := by
  have hargs : Arguments ([','].intercalate (f.arguments.map String.toList))
      (f.arguments.map String.toList) := by
    refine arguments_intercalate (List.map_eq_nil_iff.not.2 h.ne_nil) fun a ha => ?_
    obtain ⟨argument, hmem, rfl⟩ := List.mem_map.1 ha
    exact (h.arguments argument hmem).2
  rw [toList_render]
  exact .weighted (Decimal.denotes_write h.weight) (padded_self _)
    (.intro h.predicate (padded_self _) hargs (padded_self ['.']))

theorem isNumeralChar_spaces : ∀ n ∈ spaces, Numeral.isNumeralChar (Char.ofNat n) = false := by
  decide +kernel

theorem trim_render {f : Fact} (h : f.weight.isFinite = true) :
    trim f.render.toList = f.render.toList := by
  rw [toList_render]
  refine trim_eq_self ?_ ?_
  · intro c hc
    exact isSpace_eq_false isNumeralChar_spaces (Decimal.isNumeralChar_head?_write h _ c hc)
  · intro c hc
    have hlast : c = '.' := by simpa [List.getLast?_cons, List.getLast?_append] using hc.symm
    rw [hlast]
    rfl

theorem Arguments.ne_nil {text : List Char} {arguments : List (List Char)}
    (h : Arguments text arguments) : arguments ≠ [] := by
  cases h <;> exact List.cons_ne_nil _ _

theorem Arguments.word {text : List Char} {arguments : List (List Char)}
    (h : Arguments text arguments) : ∀ a ∈ arguments, Word a := by
  induction h with
  | last _ hword => exact List.forall_mem_singleton.2 hword
  | more _ hword _ ih => exact List.forall_mem_cons.2 ⟨hword, ih⟩

theorem atom_of_wide {cs : List Char} {parts : Parts} (h : Wide cs parts) :
    ∃ atom, Atom atom parts.name parts.arguments := by
  cases h with
  | weighted _ _ hatom => exact ⟨_, hatom⟩
  | plain hatom => exact ⟨_, hatom⟩

theorem wellFormed_of_parse {line : String} {f : Fact} (h : parse line = .ok f) : WellFormed f := by
  simp only [parse] at h
  split at h
  · cases h
  · next parts hparts =>
      split at h
      · cases h
      · next hempty =>
          split at h
          · next hweight =>
              cases h
              obtain ⟨atom, hatom⟩ := atom_of_wide (readParts_eq_ok_iff.1 hparts)
              cases hatom with
              | intro hname _ hargs =>
                  refine ⟨by rwa [String.toList_ofList], List.map_eq_nil_iff.not.2 hargs.ne_nil,
                    fun a ha => ?_, hweight⟩
                  obtain ⟨argument, hmem, rfl⟩ := List.mem_map.1 ha
                  rw [String.toList_ofList]
                  refine ⟨?_, hargs.word argument hmem⟩
                  rintro rfl
                  exact findIdx?_isEmpty_eq_none_iff.1 hempty hmem
          · cases h

theorem parse_render_of_wellFormed {f : Fact} (h : WellFormed f) : parse f.render = .ok f := by
  have hwide : Wide (trim f.render.toList) _ := (trim_render h.weight).symm ▸ wide_render h
  have hempty : [] ∉ f.arguments.map String.toList := by
    intro hmem
    obtain ⟨argument, hargument, hnil⟩ := List.mem_map.1 hmem
    exact (h.arguments argument hargument).1 hnil
  rw [parse_of_wide hwide (findIdx?_isEmpty_eq_none_iff.2 hempty), Option.getD_some,
    if_pos h.weight]
  simp

theorem parse_render (f : Fact) :
    ((∃ line, parse line = .ok f) ↔ WellFormed f) ∧ (WellFormed f → parse f.render = .ok f) := by
  refine ⟨⟨?_, fun h => ⟨f.render, parse_render_of_wellFormed h⟩⟩, parse_render_of_wellFormed⟩
  rintro ⟨line, h⟩
  exact wellFormed_of_parse h

-- The name could continue a numeral, and the weight is told from zero by its sign alone.
theorem parse_render_minus_zero :
    let f : Fact := ⟨-0.0, "e1", ["mary", "2"]⟩
    WellFormed f ∧ f.render = "-0::e1(mary,2)." ∧ parse f.render = .ok f := by
  intro f
  have hwell : WellFormed f := by
    refine ⟨?_, List.cons_ne_nil _ _, ?_, ?_⟩ <;> decide +kernel
  exact ⟨hwell, by decide +kernel, (parse_render f).2 hwell⟩

end RuleInduction.Fact
