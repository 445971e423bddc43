import RuleInduction.Proofs.Mode.Signatures
import RuleInduction.Proofs.Search.Run
import RuleInduction.Proofs.Search.Scopes
import RuleInduction.Proofs.Search.Subjects
import RuleInduction.Random.Generator

namespace RuleInduction

inductive Slot.Moded (pool : ConstantPool) (head earlier : List String) : Slot → Term → Prop
  | input {type x : String} (h : x ∈ head ∨ x ∈ earlier) :
      Moded pool head earlier ⟨.input, type⟩ (.var x)
  | output {type x : String} : Moded pool head earlier ⟨.output, type⟩ (.var x)
  | bodyOutput {type x : String} (h : x ∉ head) :
      Moded pool head earlier ⟨.bodyOutput, type⟩ (.var x)
  | constant {type v : String} (h : v ∈ pool.values type) :
      Moded pool head earlier ⟨.constant, type⟩ (.ofValue v)

structure Literal.WellModed (space : SearchSpace) (head earlier : List String) (l : Literal) :
    Prop where
  moded : ∃ m ∈ space.modes, m.predicate = l.predicate ∧
    m.types = space.signatures.types l.predicate ∧
    List.Forall₂ (Slot.Moded space.constants head earlier) m.slots l.arguments
  introduced_once : ∀ x, Term.var x ∈ l.arguments → x ∉ head → x ∉ earlier →
    l.arguments.count (.var x) = 1
  named : Term.var Term.anonymousName ∉ l.arguments

def Clause.varsBefore (c : Clause) (place : Nat) : List String :=
  (c.take place).flatMap Literal.vars

namespace Clause

theorem varsBefore_append {c d : Clause} {place : Nat} (h : place ≤ c.length) :
    varsBefore (c ++ d) place = c.varsBefore place := by
  rw [varsBefore, List.take_append_of_le_length h, varsBefore]

theorem varsBefore_length (c : Clause) : c.varsBefore c.length = c.flatMap Literal.vars := by
  rw [varsBefore, List.take_length]

theorem getElem?_append_singleton {body : Clause} {l l' : Literal} {k : Nat}
    (h : (body ++ [l])[k]? = some l') :
    k < body.length ∧ body[k]? = some l' ∨ k = body.length ∧ l' = l := by
  rcases Nat.lt_trichotomy k body.length with hk | rfl | hk
  · rw [List.getElem?_append_left hk] at h
    exact Or.inl ⟨hk, h⟩
  · rw [List.getElem?_concat_length] at h
    cases h
    exact Or.inr ⟨rfl, rfl⟩
  · rw [List.getElem?_eq_none] at h
    · cases h
    · rw [List.length_append, List.length_singleton]
      exact hk

end Clause

def SearchSpace.Places (space : SearchSpace) (head : List String) (c : Clause) (x type : String) :
    Prop :=
  (x, type) ∈ head.zip space.targetTypes ∨ ∃ l ∈ c, (Term.var x, type) ∈ space.places l

structure LearnedClause.WellModed (space : SearchSpace) (recursive : Bool) (c : LearnedClause) :
    Prop where
  nodup_head : c.head.Nodup
  length_head : c.head.length = space.targetTypes.length
  literals : ∀ (k : Nat) (l : Literal), c.clause[k]? = some l →
    l.WellModed space c.head (c.clause.varsBefore k)
  one_type : ∀ x type type', space.Places c.head c.clause x type →
    space.Places c.head c.clause x type' → type = type'
  not_target : recursive = false → ∀ l ∈ c.clause, l.predicate ≠ space.target

namespace ClauseSearch

variable {s : ClauseSearch} {state next : SearchState} {l : Literal} {x type : String}

structure Prepared (s : ClauseSearch) : Prop where
  nodup_head : s.head.Nodup
  length_head : s.head.length = s.space.targetTypes.length
  head_used : ∀ x ∈ s.head, x ∈ s.names.used
  head_named : Term.anonymousName ∉ s.head
  types : ∀ m ∈ s.space.modes, s.space.signatures.types m.predicate = m.types

/-- The invariant of the search. What is bound in the scopes is what stands in the head and in the
clause, by the same types, and all of it is in use. -/
structure Typed (s : ClauseSearch) (state : SearchState) : Prop where
  head_used : ∀ x ∈ s.head, x ∈ state.names.used
  body_used : ∀ type x, (type, x) ∈ state.body.entries → x ∈ state.names.used
  body_occurs : ∀ type x, (type, x) ∈ state.body.entries →
    x ∉ s.head ∧ x ∈ state.clause.flatMap Literal.vars
  one_type : ∀ type type' x, (s.surroundings state.body).Binds type x →
    (s.surroundings state.body).Binds type' x → type = type'
  bound : ∀ l ∈ state.clause, ∀ type x, (Term.var x, type) ∈ s.space.places l →
    (s.surroundings state.body).Binds type x
  literals : ∀ (k : Nat) (l : Literal), state.clause[k]? = some l →
    l.WellModed s.space s.head (state.clause.varsBefore k)
  not_target : s.limits.recursive = false → ∀ l ∈ state.clause, l.predicate ≠ s.space.target

theorem exists_fills (hs : Prepared s) (h : s.Accepts state l) : ∃ m ∈ s.space.modes,
    m.predicate = l.predicate ∧ m.predicate ∈ s.predicates ∧
    s.space.signatures.types l.predicate = m.types ∧
    Fills (s.surroundings state.body) state.names m.slots l.arguments := by
  obtain ⟨allowed, hallowed, hl⟩ := h.candidate
  obtain ⟨m, hm, hp, _, heq, hfills⟩ := Candidates.mem_generate.1 hl
  exact ⟨m, hm, heq.symm, hallowed _ hp, heq ▸ hs.types m hm, hfills⟩

theorem mem_head_or_of_binds (h : Typed s state)
    (hx : (s.surroundings state.body).Binds type x) :
    x ∈ s.head ∨ x ∈ state.clause.flatMap Literal.vars := by
  rcases hx with hx | hx
  · exact Or.inl (List.of_mem_zip (mem_headScope.1 hx)).1
  · exact Or.inr (h.body_occurs _ _ hx).2

theorem used_of_binds (h : Typed s state) (hx : (s.surroundings state.body).Binds type x) :
    x ∈ state.names.used := by
  rcases hx with hx | hx
  · exact h.head_used _ (List.of_mem_zip (mem_headScope.1 hx)).1
  · exact h.body_used _ _ hx

theorem ne_anonymousName_of_binds (hs : Prepared s) (h : Typed s state)
    (hx : (s.surroundings state.body).Binds type x) : x ≠ Term.anonymousName := by
  rcases mem_head_or_of_binds h hx with hx | hx
  · rintro rfl
    exact hs.head_named hx
  · obtain ⟨l, _, hx⟩ := List.mem_flatMap.1 hx
    exact (Literal.mem_vars.1 hx).2

theorem moded_of_admits (h : Typed s state) {slot : Slot} {t : Term}
    {fresh : String} (hfresh : fresh ∉ state.names.used)
    (ht : slot.Admits (s.surroundings state.body) fresh t) :
    slot.Moded s.space.constants s.head (state.clause.flatMap Literal.vars) t := by
  cases ht with
  | constant hv => exact .constant hv
  | input hx => exact .input (mem_head_or_of_binds h hx)
  | output hx => exact .output
  | bodyOutput hx _ => exact .bodyOutput (h.body_occurs _ _ hx).1
  | fresh htakes =>
      obtain ⟨symbol, type⟩ := slot
      cases symbol with
      | input => cases htakes
      | output => exact .output
      -- The names of the head are in use, so none of them is fresh.
      | bodyOutput => exact .bodyOutput fun hx => hfresh (h.head_used _ hx)
      | constant => cases htakes

theorem wellModed_of_accepts (hs : Prepared s) (h : Typed s state) (hl : s.Accepts state l) :
    l.WellModed s.space s.head (state.clause.flatMap Literal.vars) := by
  obtain ⟨m, hm, hp, _, htypes, hfills⟩ := exists_fills hs hl
  refine ⟨⟨m, hm, hp, htypes.symm, ?_⟩, ?_, ?_⟩
  · exact hfills.exists_admits.imp fun slot t ⟨fresh, hfresh, _, ht⟩ =>
      moded_of_admits h hfresh ht
  · intro x hx hhead hearlier
    have hone := hfills.count_le_one (x := x) fun type hb =>
      (mem_head_or_of_binds h hb).elim hhead hearlier
    have hpos := List.count_pos_iff.2 hx
    omega
  · intro hmem
    rcases hfills.binds_or_new_of_mem hmem with ⟨type, hbinds⟩ | ⟨_, hne⟩
    · exact ne_anonymousName_of_binds hs h hbinds rfl
    · exact hne rfl

theorem binds_of_used (hs : Prepared s) (hl : s.Accepts state l)
    (hx : (Term.var x, type) ∈ s.space.places l) (hused : x ∈ state.names.used) :
    (s.surroundings state.body).Binds type x := by
  obtain ⟨m, _, _, _, htypes, hfills⟩ := exists_fills hs hl
  rw [SearchSpace.places, htypes] at hx
  exact (hfills.binds_or_new hx).resolve_right fun hnew => hnew.1 hused

theorem count_le_one_of_not_used (hs : Prepared s) (h : Typed s state) (hl : s.Accepts state l)
    (hx : x ∉ state.names.used) : l.arguments.count (.var x) ≤ 1 := by
  obtain ⟨m, _, _, _, _, hfills⟩ := exists_fills hs hl
  exact hfills.count_le_one fun type hbinds => hx (used_of_binds h hbinds)

theorem binds_bindBody (hs : Prepared s) :
    (s.surroundings (s.bindBody l state.body)).Binds type x ↔
      (s.surroundings state.body).Binds type x ∨
        (Term.var x, type) ∈ s.space.places l ∧ x ≠ Term.anonymousName ∧ x ∉ s.head := by
  have hhead : s.headScope.contains x = false ↔ x ∉ s.head := by
    rw [Bool.eq_false_iff, Ne, contains_headScope hs.length_head]
  simp only [Surroundings.Binds, surroundings, mem_bindBody, hhead, or_assoc]

theorem one_type_bindBody (hs : Prepared s) (h : Typed s state) (hl : s.Accepts state l)
    {type' : String} (hx : (s.surroundings (s.bindBody l state.body)).Binds type x)
    (hx' : (s.surroundings (s.bindBody l state.body)).Binds type' x) : type = type' := by
  rw [binds_bindBody hs] at hx hx'
  by_cases hused : x ∈ state.names.used
  · -- Then the literal binds it by no other type than before.
    have hold {τ : String} (hτ : (s.surroundings state.body).Binds τ x ∨
        (Term.var x, τ) ∈ s.space.places l ∧ x ≠ Term.anonymousName ∧ x ∉ s.head) :
        (s.surroundings state.body).Binds τ x :=
      hτ.elim id fun hplace => binds_of_used hs hl hplace.1 hused
    exact h.one_type _ _ _ (hold hx) (hold hx')
  · have hnot {τ : String} : ¬ (s.surroundings state.body).Binds τ x :=
      fun hbinds => hused (used_of_binds h hbinds)
    have hcount := count_le_one_of_not_used hs h hl hused
    exact eq_of_mem_zip hcount (hx.resolve_left hnot).1 (hx'.resolve_left hnot).1

theorem mem_vars_of_mem_places (hnamed : Term.var Term.anonymousName ∉ l.arguments)
    (hx : (Term.var x, type) ∈ s.space.places l) : x ∈ l.vars := by
  have hmem := (List.of_mem_zip hx).1
  refine Literal.mem_vars.2 ⟨hmem, ?_⟩
  rintro rfl
  exact hnamed hmem

theorem mem_used_accept : x ∈ (s.accept state (s.score state l)).names.used ↔
    x ∈ l.vars ∨ x ∈ state.names.used :=
  FreshNames.mem_used_foldl_reserve

theorem ne_target_of_accepts (hs : Prepared s) (hl : s.Accepts state l)
    (hrec : s.limits.recursive = false) : l.predicate ≠ s.space.target := by
  obtain ⟨m, _, hp, hmem, _⟩ := exists_fills hs hl
  rw [hp, predicates, SearchSpace.bodyPredicates, List.mem_filter, hrec, Bool.false_or] at hmem
  exact of_decide_eq_true hmem.2

theorem typed_initial (hs : Prepared s) : Typed s s.initial where
  head_used := hs.head_used
  body_used := by
    intro type x hx
    cases hx
  body_occurs := by
    intro type x hx
    cases hx
  one_type := by
    intro type type' x hx hx'
    have hx := mem_headScope.1 (hx.resolve_right List.not_mem_nil)
    have hx' := mem_headScope.1 (hx'.resolve_right List.not_mem_nil)
    exact eq_of_mem_zip (List.nodup_iff_count_le_one.1 hs.nodup_head x) hx hx'
  bound := by
    intro l hl
    cases hl
  literals := by
    intro k l hl
    cases hl
  not_target := by
    intro _ l hl
    cases hl

theorem body_occurs_of_accepts (hs : Prepared s) (h : Typed s state) (hl : s.Accepts state l)
    (hx : (type, x) ∈ (s.bindBody l state.body).entries) :
    x ∉ s.head ∧ (x ∈ l.vars ∨ x ∈ state.clause.flatMap Literal.vars) := by
  rcases mem_bindBody.1 hx with hx | ⟨hx, _, hhead⟩
  · exact (h.body_occurs type x hx).imp_right Or.inr
  · refine ⟨?_, Or.inl (mem_vars_of_mem_places (wellModed_of_accepts hs h hl).named hx)⟩
    intro hmem
    rw [(contains_headScope hs.length_head).2 hmem] at hhead
    cases hhead

theorem binds_of_mem_places (hs : Prepared s) (h : Typed s state) (hl : s.Accepts state l)
    (hx : (Term.var x, type) ∈ s.space.places l) :
    (s.surroundings (s.bindBody l state.body)).Binds type x := by
  refine (binds_bindBody hs).2 ?_
  by_cases hused : x ∈ state.names.used
  · exact Or.inl (binds_of_used hs hl hx hused)
  · have hvars := mem_vars_of_mem_places (wellModed_of_accepts hs h hl).named hx
    have hhead : x ∉ s.head := fun hhead => hused (h.head_used x hhead)
    exact Or.inr ⟨hx, (Literal.mem_vars.1 hvars).2, hhead⟩

theorem typed_accept (hs : Prepared s) (h : Typed s state) (hl : s.Accepts state l) :
    Typed s (s.accept state (s.score state l)) where
  head_used := by
    intro x hx
    exact mem_used_accept.2 (Or.inr (h.head_used x hx))
  body_used := by
    intro type x hx
    rcases mem_bindBody.1 hx with hx | ⟨hx, _⟩
    · exact mem_used_accept.2 (Or.inr (h.body_used type x hx))
    · have hnamed := (wellModed_of_accepts hs h hl).named
      exact mem_used_accept.2 (Or.inl (mem_vars_of_mem_places hnamed hx))
  body_occurs := by
    intro type x hx
    rw [clause_accept, List.flatMap_append, List.flatMap_singleton, List.mem_append, or_comm]
    exact body_occurs_of_accepts hs h hl hx
  one_type := by
    intro type type' x
    exact one_type_bindBody hs h hl
  bound := by
    intro l' hl' type x hx
    rcases List.mem_append.1 hl' with hl' | hl'
    · exact (binds_bindBody hs).2 (Or.inl (h.bound l' hl' type x hx))
    · rw [List.mem_singleton.1 hl'] at hx
      exact binds_of_mem_places hs h hl hx
  literals := by
    intro k l' hk
    rcases Clause.getElem?_append_singleton hk with ⟨hlt, hk⟩ | ⟨rfl, rfl⟩
    · rw [clause_accept, Clause.varsBefore_append (Nat.le_of_lt hlt)]
      exact h.literals k l' hk
    · rw [clause_accept, Clause.varsBefore_append (Nat.le_refl _), Clause.varsBefore_length]
      exact wellModed_of_accepts hs h hl
  not_target := by
    intro hrec l' hl'
    rcases List.mem_append.1 hl' with hl' | hl'
    · exact h.not_target hrec l' hl'
    · rw [List.mem_singleton.1 hl']
      exact ne_target_of_accepts hs hl hrec

theorem typed_of_step (hs : Prepared s) (h : Typed s state) (hstep : s.Step state next) :
    Typed s next := by
  obtain ⟨l, hl, rfl⟩ := hstep
  exact typed_accept hs h hl

theorem binds_of_places (h : Typed s state) (hx : s.space.Places s.head state.clause x type) :
    (s.surroundings state.body).Binds type x := by
  rcases hx with hx | ⟨l, hl, hx⟩
  · exact Or.inl (mem_headScope.2 hx)
  · exact h.bound l hl type x hx

theorem prepared_start {target : String} {modes : List Mode} {background : List Fact}
    {space : SearchSpace} (h : SearchSpace.ofModes target modes background = .ok space)
    (store : Store) (limits : SearchLimits) (examples : List Fact) :
    Prepared (start space store limits examples) where
  nodup_head := FreshNames.nodup_take _
  length_head := FreshNames.length_take _
  head_used := fun _ hx => FreshNames.mem_used_take.2 (Or.inl hx)
  head_named := fun hmem => (FreshNames.not_mem_used_of_mem_take hmem).2 rfl
  types := fun _ => SearchSpace.types_of_mem h

variable {G : Type} [RandomSource G]

theorem wellModed_learn (target : String) (modes : List Mode) (background : List Fact)
    (space : SearchSpace) (store : Store) (limits : SearchLimits) (examples : List Fact) (g : G)
    (h : SearchSpace.ofModes target modes background = .ok space) :
    ((start space store limits examples).learn g).1.WellModed space limits.recursive := by
  have hs := prepared_start h store limits examples
  obtain ⟨state, htyped, hclause, _⟩ :=
    learn_invariant (typed_initial hs) (fun _ _ => typed_of_step hs) g
  refine ⟨hs.nodup_head, hs.length_head, ?_, ?_, ?_⟩
  · rw [hclause]
    exact htyped.literals
  · rw [hclause]
    intro x type type' hx hx'
    exact htyped.one_type _ _ _ (binds_of_places htyped hx) (binds_of_places htyped hx')
  · rw [hclause]
    exact htyped.not_target

theorem wellModed_learn_wings :
    let modes : List Mode := [⟨"flies", [⟨.input, "animal"⟩]⟩,
      ⟨"has", [⟨.input, "animal"⟩, ⟨.output, "part"⟩]⟩]
    let space : SearchSpace := ⟨"flies", modes,
      .ofList [("flies", ["animal"]), ("has", ["animal", "part"])], .empty⟩
    let store := Store.compile [⟨1.0, "has", ["tweety", "wings"]⟩]
    let limits : SearchLimits := ⟨none, none, 1, .mse, .best, false⟩
    let examples : List Fact := [⟨1.0, "flies", ["tweety"]⟩, ⟨0.0, "flies", ["tom"]⟩]
    let c := ((start space store limits examples).learn (⟨3⟩ : SplitMix)).1
    SearchSpace.ofModes " flies" modes [] = .ok space ∧
      c.clause = [⟨"has", [.var "A", .var "B"]⟩] ∧ c.WellModed space false := by
  have hspace : SearchSpace.ofModes " flies" [⟨"flies", [⟨.input, "animal"⟩]⟩,
      ⟨"has", [⟨.input, "animal"⟩, ⟨.output, "part"⟩]⟩] [] = .ok ⟨"flies",
        [⟨"flies", [⟨.input, "animal"⟩]⟩, ⟨"has", [⟨.input, "animal"⟩, ⟨.output, "part"⟩]⟩],
        .ofList [("flies", ["animal"]), ("has", ["animal", "part"])], .empty⟩ := rfl
  refine ⟨hspace, by decide +kernel, ?_⟩
  exact wellModed_learn _ _ _ _ _ ⟨none, none, 1, .mse, .best, false⟩ _ (⟨3⟩ : SplitMix) hspace

end ClauseSearch

end RuleInduction
