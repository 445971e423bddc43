import RuleInduction.Mode.Line
import RuleInduction.Proofs.Line

namespace RuleInduction.Mode

open Text Line

inductive SlotText : List Char → Char × List Char → Prop
  | intro {before type after : List Char} {symbol : Char} (hbefore : Blanks before)
      (hsymbol : isBlank symbol = false) (htype : IsIdentifier type) (hafter : Blanks after) :
      SlotText (before ++ symbol :: (type ++ after)) (symbol, type)

inductive Slots : List Char → List (Char × List Char) → Prop
  | last {text : List Char} {slot : Char × List Char} (h : SlotText text slot) : Slots text [slot]
  | more {text rest : List Char} {slot : Char × List Char} {slots : List (Char × List Char)}
      (h : SlotText text slot) (htail : Slots rest slots) :
      Slots (text ++ ',' :: rest) (slot :: slots)

inductive Form : List Char → List Char → List (Char × List Char) → Prop
  | intro {name head text stop : List Char} {slots : List (Char × List Char)}
      (hname : IsIdentifier name) (hhead : Padded name head) (hslots : Slots text slots)
      (hstop : stop = [] ∨ Padded ['.'] stop) : Form (head ++ '(' :: (text ++ ')' :: stop)) name slots

variable {cs text rest name : List Char} {slot : Char × List Char} {slots : List (Char × List Char)}

theorem isBlank_of_skipBlanks {c : Char} (h : skipBlanks cs = c :: rest) : isBlank c = false := by
  have hhead := List.head?_dropWhile_not isBlank cs
  rwa [show cs.dropWhile isBlank = c :: rest from h] at hhead

theorem slotText_of_read (h : readSlot cs = .ok (slot, rest)) :
    ∃ text, SlotText text slot ∧ cs = text ++ rest := by
  simp only [readSlot] at h
  split at h
  · cases h
  · next symbol tail hsymbol =>
      split at h
      · cases h
      · next c type htype =>
          cases h
          have hword : IsIdentifier (c :: type) :=
            ⟨List.cons_ne_nil _ _, htype ▸ word_takeWhile tail⟩
          refine ⟨_, .intro (blanks_takeWhile cs) (isBlank_of_skipBlanks hsymbol) hword
            (blanks_takeWhile (tail.dropWhile isIdentChar)), ?_⟩
          rw [List.append_assoc, List.cons_append, List.append_assoc, takeWhile_append_skipBlanks,
            ← htype, List.takeWhile_append_dropWhile, ← hsymbol, takeWhile_append_skipBlanks]

theorem readSlot_of_text (h : SlotText text slot) (hrest : Closed rest) :
    readSlot (text ++ rest) = .ok (slot, rest) := by
  cases h with
  | @intro before type after symbol hbefore hsymbol htype hafter =>
      have hstart : skipBlanks (before ++ (symbol :: (type ++ (after ++ rest)))) =
          symbol :: (type ++ (after ++ rest)) :=
        skipBlanks_append hbefore (forall_head?_cons hsymbol)
      have hgap := isIdentChar_head?_gap hafter hrest
      rw [List.append_assoc, List.cons_append, List.append_assoc, readSlot, hstart]
      simp only [takeWhile_exact htype.2 hgap, dropWhile_exact htype.2 hgap,
        skipBlanks_append hafter hrest.isBlank_eq]
      cases type with
      | nil => exact absurd rfl htype.1
      | cons c word => rfl

theorem readMoreSlots_comma {after : List Char} (h : readSlot after = .ok (slot, rest)) :
    readMoreSlots (',' :: after) = (slot :: (readMoreSlots rest).1, (readMoreSlots rest).2) := by
  rw [readMoreSlots]
  split
  · next heq => cases h.symm.trans heq; rfl
  · next heq => cases h.symm.trans heq

theorem readMoreSlots_error {after : List Char} {stop : Stop} (h : readSlot after = .error stop) :
    readMoreSlots (',' :: after) = ([], ',' :: after) := by
  rw [readMoreSlots]
  split
  · next heq => cases h.symm.trans heq
  · rfl

theorem readMoreSlots_other (h : ∀ after, rest = ',' :: after → False) :
    readMoreSlots rest = ([], rest) := by
  rw [readMoreSlots]
  exact h

theorem slots_of_readMore (rest : List Char) :
    ∀ {text : List Char} {slot : Char × List Char}, SlotText text slot →
      ∃ all, Slots all (slot :: (readMoreSlots rest).1) ∧
        text ++ rest = all ++ (readMoreSlots rest).2 := by
  induction rest using readMoreSlots.induct with
  | case1 after next rest hread ih =>
      intro text slot htext
      obtain ⟨inner, hinner, rfl⟩ := slotText_of_read hread
      obtain ⟨tail, htail, heq⟩ := ih hinner
      rw [readMoreSlots_comma hread]
      refine ⟨text ++ ',' :: tail, .more htext htail, ?_⟩
      rw [List.append_assoc, List.cons_append, ← heq]
  | case2 after stop hread =>
      rw [readMoreSlots_error hread]
      exact fun htext => ⟨_, .last htext, rfl⟩
  | case3 rest hno =>
      rw [readMoreSlots_other hno]
      exact fun htext => ⟨_, .last htext, rfl⟩

theorem slots_of_read (h : readSlot cs = .ok (slot, rest)) :
    ∃ text, Slots text (slot :: (readMoreSlots rest).1) ∧ cs = text ++ (readMoreSlots rest).2 := by
  obtain ⟨text, htext, rfl⟩ := slotText_of_read h
  exact slots_of_readMore rest htext

theorem read_of_slots (h : Slots text slots) (rest : List Char) :
    ∃ slot more after, slots = slot :: more ∧
      readSlot (text ++ ')' :: rest) = .ok (slot, after) ∧
      readMoreSlots after = (more, ')' :: rest) := by
  induction h with
  | last h =>
      exact ⟨_, [], _, rfl, readSlot_of_text h (closed_of_delimiter (by simp)),
        readMoreSlots_other nofun⟩
  | @more text tail first slots h htail ih =>
      obtain ⟨slot, more, after, rfl, hread, hmore⟩ := ih
      refine ⟨first, slot :: more, ',' :: (tail ++ ')' :: rest), rfl, ?_, ?_⟩
      · rw [List.append_assoc]
        exact readSlot_of_text h (closed_of_delimiter (by simp))
      · rw [readMoreSlots_comma hread, hmore]

theorem skipFullStop_eq_nil_iff : skipFullStop rest = [] ↔ rest = [] ∨ Padded ['.'] rest := by
  rw [skipFullStop]
  constructor
  · intro h
    split at h
    · next after hstop => exact .inr (padded_of_expect hstop (skipBlanks_eq_nil_iff.1 h))
    · exact .inl h
  · rintro (rfl | hstop)
    · rfl
    · obtain ⟨after, hafter, hexpect⟩ := expect_of_padded hstop rfl
      rw [hexpect]
      exact skipBlanks_eq_nil_iff.2 hafter

theorem readParts_eq_ok_iff : readParts cs = .ok (name, slots) ↔ Form cs name slots := by
  simp only [readParts, bind_eq_ok]
  constructor
  · rintro ⟨⟨name, r₁⟩, hname, r₂, hopen, ⟨slot, r₃⟩, hslot, r₄, hclose, hfinish⟩
    obtain ⟨head, hhead, hident, rfl⟩ := padded_of_name hname
    obtain ⟨text, htext, hslots⟩ := slots_of_read hslot
    obtain ⟨hend, heq⟩ := eq_nil_of_finish hfinish
    cases heq
    have hopen : r₁ = '(' :: r₂ := eq_cons_of_expect hopen
    rw [hopen, hslots, eq_cons_of_expect hclose]
    exact .intro hident hhead htext (skipFullStop_eq_nil_iff.1 hend)
  · intro h
    cases h with
    | @intro name head text stop slots hname hhead hslots hstop =>
        obtain ⟨slot, more, after, rfl, hread, hmore⟩ := read_of_slots hslots stop
        refine ⟨_, name_of_padded hhead hname (closed_of_delimiter (by simp)), _, expect_self '(' _,
          _, hread, stop, ?_, ?_⟩
        · rw [hmore]
          exact expect_self ')' stop
        · rw [skipFullStop_eq_nil_iff.2 hstop, hmore]
          rfl

def IsSymbol (c : Char) : Prop :=
  c = '+' ∨ c = '-' ∨ c = '\x60' ∨ c = '#'

theorem isSymbol_toChar (symbol : ModeSymbol) : IsSymbol symbol.toChar := by
  cases symbol <;> simp [IsSymbol, ModeSymbol.toChar]

theorem exists_symbol {c : Char} (h : IsSymbol c) : ∃ symbol : ModeSymbol, symbol.toChar = c := by
  rcases h with rfl | rfl | rfl | rfl
  · exact ⟨.input, rfl⟩
  · exact ⟨.output, rfl⟩
  · exact ⟨.bodyOutput, rfl⟩
  · exact ⟨.constant, rfl⟩

theorem ofChar?_eq_none {c : Char} (h : ¬ IsSymbol c) : ModeSymbol.ofChar? c = none := by
  cases hsymbol : ModeSymbol.ofChar? c with
  | none => rfl
  | some symbol => exact absurd (ModeSymbol.toChar_of_ofChar? hsymbol ▸ isSymbol_toChar symbol) h

inductive FirstUnknown : List (Char × List Char) → Char → Prop
  | here {c : Char} {type : List Char} {slots : List (Char × List Char)} (h : ¬ IsSymbol c) :
      FirstUnknown ((c, type) :: slots) c
  | later {slot : Char × List Char} {slots : List (Char × List Char)} {c : Char}
      (hslot : IsSymbol slot.1) (h : FirstUnknown slots c) : FirstUnknown (slot :: slots) c

def parts (s : Slot) : Char × List Char :=
  (s.symbol.toChar, s.type.toList)

theorem known_or_unknown (slots : List (Char × List Char)) :
    (∃ known : List Slot, slots = known.map parts) ∨ ∃ c, FirstUnknown slots c := by
  induction slots with
  | nil => exact .inl ⟨[], rfl⟩
  | cons slot slots ih =>
      by_cases hslot : IsSymbol slot.1
      · rcases ih with ⟨known, rfl⟩ | ⟨c, hc⟩
        · obtain ⟨symbol, hsymbol⟩ := exists_symbol hslot
          refine .inl ⟨⟨symbol, String.ofList slot.2⟩ :: known, ?_⟩
          rw [List.map_cons, parts, hsymbol, String.toList_ofList]
        · exact .inr ⟨c, .later hslot hc⟩
      · exact .inr ⟨slot.1, .here hslot⟩

theorem ofParts?_parts (shown : String) (s : Slot) : ofParts? shown (parts s) = .ok s := by
  rw [ofParts?, parts, ModeSymbol.ofChar?_toChar, String.ofList_toList]

theorem mapM_known (shown : String) (known : List Slot) :
    (known.map parts).mapM (ofParts? shown) = .ok known := by
  induction known with
  | nil => rfl
  | cons s known ih =>
      rw [List.map_cons, List.mapM_cons, ofParts?_parts, ih]
      rfl

theorem mapM_unknown (shown : String) {c : Char} (h : FirstUnknown slots c) :
    slots.mapM (ofParts? shown) = .error (.unknownSymbol shown c) := by
  induction h with
  | here h =>
      rw [List.mapM_cons, ofParts?, ofChar?_eq_none h]
      rfl
  | later hslot h ih =>
      obtain ⟨symbol, hsymbol⟩ := exists_symbol hslot
      rw [List.mapM_cons, ofParts?, ← hsymbol, ModeSymbol.ofChar?_toChar, ih]
      rfl

section Parse

variable {line : String}

theorem parse_known {m : Mode}
    (h : Form (trim line.toList) m.predicate.toList (m.slots.map parts)) : parse line = .ok m := by
  simp only [parse, readParts_eq_ok_iff.2 h, mapM_known, String.ofList_toList]
  rfl

theorem parse_unknown {c : Char} (h : Form (trim line.toList) name slots)
    (hc : FirstUnknown slots c) :
    parse line = .error (.unknownSymbol (String.ofList (trim line.toList)) c) := by
  simp only [parse, readParts_eq_ok_iff.2 h, mapM_unknown _ hc]
  rfl

theorem parse_malformed (h : ¬ ∃ name slots, Form (trim line.toList) name slots) :
    ∃ offset, parse line = .error (.malformedMode (String.ofList (trim line.toList)) offset) := by
  cases hread : readParts (trim line.toList) with
  | ok read => exact absurd ⟨read.1, read.2, readParts_eq_ok_iff.1 hread⟩ h
  | error stop => exact ⟨offset (trim line.toList) stop.rest, by simp only [parse, hread]⟩

-- One of the three cases holds of each line, and the outcomes differ; so each decides its case.
theorem parse_cases (line : String) :
    (∃ m : Mode, Form (trim line.toList) m.predicate.toList (m.slots.map parts)) ∨
    (∃ name slots c, Form (trim line.toList) name slots ∧ FirstUnknown slots c) ∨
    ¬ ∃ name slots, Form (trim line.toList) name slots := by
  by_cases hform : ∃ name slots, Form (trim line.toList) name slots
  · obtain ⟨name, slots, hform⟩ := hform
    rcases known_or_unknown slots with ⟨known, rfl⟩ | ⟨c, hc⟩
    · exact .inl ⟨⟨String.ofList name, known⟩, by rwa [String.toList_ofList]⟩
    · exact .inr (.inl ⟨name, slots, c, hform, hc⟩)
  · exact .inr (.inr hform)

theorem parse_eq_ok_iff {m : Mode} : parse line = .ok m ↔
    Form (trim line.toList) m.predicate.toList (m.slots.map parts) := by
  refine ⟨fun h => ?_, parse_known⟩
  rcases parse_cases line with ⟨known, hform⟩ | ⟨_, _, c, hform, hc⟩ | hno
  · cases (parse_known hform).symm.trans h
    exact hform
  · cases (parse_unknown hform hc).symm.trans h
  · obtain ⟨offset, herror⟩ := parse_malformed hno
    cases herror.symm.trans h

theorem unknownSymbol_iff {c : Char} :
    parse line = .error (.unknownSymbol (String.ofList (trim line.toList)) c) ↔
      ∃ name slots, Form (trim line.toList) name slots ∧ FirstUnknown slots c := by
  refine ⟨fun h => ?_, fun ⟨_, _, hform, hc⟩ => parse_unknown hform hc⟩
  rcases parse_cases line with ⟨known, hform⟩ | ⟨name, slots, d, hform, hd⟩ | hno
  · cases (parse_known hform).symm.trans h
  · cases (parse_unknown hform hd).symm.trans h
    exact ⟨name, slots, hform, hd⟩
  · obtain ⟨offset, herror⟩ := parse_malformed hno
    cases herror.symm.trans h

theorem malformedMode_iff :
    (∃ offset, parse line = .error (.malformedMode (String.ofList (trim line.toList)) offset)) ↔
      ¬ ∃ name slots, Form (trim line.toList) name slots := by
  refine ⟨?_, parse_malformed⟩
  rintro ⟨offset, h⟩
  rcases parse_cases line with ⟨known, hform⟩ | ⟨_, _, c, hform, hc⟩ | hno
  · cases (parse_known hform).symm.trans h
  · cases (parse_unknown hform hc).symm.trans h
  · exact hno

end Parse

structure WellFormed (m : Mode) : Prop where
  predicate : IsIdentifier m.predicate.toList
  ne_nil : m.slots ≠ []
  types : ∀ s ∈ m.slots, IsIdentifier s.type.toList

theorem slotText_parts {s : Slot} (h : IsIdentifier s.type.toList) :
    SlotText (s.symbol.toChar :: s.type.toList) (parts s) := by
  have hsymbol : isBlank s.symbol.toChar = false := by cases s.symbol <;> rfl
  have htext := SlotText.intro blanks_nil hsymbol h blanks_nil
  rwa [List.append_nil, List.nil_append] at htext

theorem slots_intercalate {known : List Slot} (hne : known ≠ [])
    (h : ∀ s ∈ known, IsIdentifier s.type.toList) :
    Slots ([','].intercalate (known.map fun s => s.symbol.toChar :: s.type.toList))
      (known.map parts) := by
  induction known with
  | nil => exact absurd rfl hne
  | cons s known ih =>
      have hslot := slotText_parts (h s List.mem_cons_self)
      cases known with
      | nil => exact List.intercalate_singleton ▸ .last hslot
      | cons next more =>
          have htail := ih (List.cons_ne_nil next more) fun t ht => h t (List.mem_cons_of_mem _ ht)
          rw [List.map_cons, List.map_cons, List.intercalate_cons_cons, List.append_assoc]
          exact .more hslot htail

theorem toList_render (m : Mode) : m.render.toList = m.predicate.toList ++ '(' ::
    ([','].intercalate (m.slots.map fun s => s.symbol.toChar :: s.type.toList) ++ ')' :: ['.']) := by
  have hslots : (m.slots.map Slot.render).map String.toList =
      m.slots.map fun s => s.symbol.toChar :: s.type.toList := by
    rw [List.map_map]
    refine List.map_congr_left fun s _ => ?_
    simp [Slot.render]
  simp [render, String.toList_intercalate, hslots]

theorem form_render {m : Mode} (h : WellFormed m) :
    Form m.render.toList m.predicate.toList (m.slots.map parts) := by
  rw [toList_render]
  exact .intro h.predicate (padded_self _) (slots_intercalate h.ne_nil h.types)
    (.inr (padded_self ['.']))

theorem trim_render {m : Mode} (h : IsIdentifier m.predicate.toList) :
    trim m.render.toList = m.render.toList := by
  rw [toList_render]
  refine trim_eq_self ?_ ?_
  · cases hname : m.predicate.toList with
    | nil => exact absurd hname h.1
    | cons c word =>
        refine forall_head?_cons (isSpace_of_isIdentChar (h.2 c ?_))
        rw [hname]
        exact List.mem_cons_self
  · intro c hc
    have hlast : c = '.' := by simpa [List.getLast?_cons, List.getLast?_append] using hc.symm
    rw [hlast]
    rfl

theorem parse_written {m : Mode} (h : WellFormed m) : parse m.render = .ok m := by
  rw [parse_eq_ok_iff, trim_render h.predicate]
  exact form_render h

theorem parse_iff_form :
    (∀ line : String,
      let cs := trim line.toList
      let shown := String.ofList cs
      (∀ m, parse line = .ok m ↔ Form cs m.predicate.toList (m.slots.map parts)) ∧
      (∀ c, parse line = .error (.unknownSymbol shown c) ↔
        ∃ name slots, Form cs name slots ∧ FirstUnknown slots c) ∧
      ((∃ offset, parse line = .error (.malformedMode shown offset)) ↔
        ¬ ∃ name slots, Form cs name slots)) ∧
    ∀ m, WellFormed m → parse m.render = .ok m :=
  ⟨fun _ => ⟨fun _ => parse_eq_ok_iff, fun _ => unknownSymbol_iff, malformedMode_iff⟩,
    fun _ h => parse_written h⟩

-- The parenthesis before the second type is taken for a symbol.
theorem parse_iff_form_knows :
    let m : Mode := ⟨"knows", [⟨.input, "person"⟩, ⟨.bodyOutput, "2nd"⟩]⟩
    (WellFormed m ∧ parse m.render = .ok m) ∧
      FirstUnknown [('+', ['a']), (')', ['b'])] ')' ∧
      parse "p(+a,)b)" = .error (.unknownSymbol "p(+a,)b)" ')') := by
  intro m
  have hwell : WellFormed m := by
    refine ⟨?_, List.cons_ne_nil _ _, ?_⟩ <;> decide +kernel
  have hunknown : FirstUnknown [('+', ['a']), (')', ['b'])] ')' :=
    .later (.inl rfl) (.here (by unfold IsSymbol; decide))
  have hname : IsIdentifier ['p'] := by decide +kernel
  have hslots : Slots "+a,)b".toList [('+', ['a']), (')', ['b'])] := by
    have ha : IsIdentifier ['a'] := by decide +kernel
    have hb : IsIdentifier ['b'] := by decide +kernel
    exact .more (.intro blanks_nil rfl ha blanks_nil) (.last (.intro blanks_nil rfl hb blanks_nil))
  have hform : Form (trim "p(+a,)b)".toList) ['p'] [('+', ['a']), (')', ['b'])] := by
    have htrim : trim "p(+a,)b)".toList = ['p'] ++ '(' :: ("+a,)b".toList ++ ')' :: []) := by
      decide +kernel
    exact htrim ▸ .intro hname (padded_self _) hslots (.inl rfl)
  have hshown : String.ofList (trim "p(+a,)b)".toList) = "p(+a,)b)" := by decide +kernel
  have hparse := ((parse_iff_form.1 "p(+a,)b)").2.1 ')').2 ⟨_, _, hform, hunknown⟩
  rw [hshown] at hparse
  exact ⟨⟨hwell, parse_iff_form.2 m hwell⟩, hunknown, hparse⟩

end RuleInduction.Mode
