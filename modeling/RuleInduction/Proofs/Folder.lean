import Mathlib.Data.List.TakeWhile
import RuleInduction.Folder

namespace RuleInduction.Folder

variable {f g h : Folder} {way there : Way} {name : String} {names xs ys : List String}

structure Proper (name : String) : Prop where
  not_dots : name ≠ "" ∧ name ≠ "." ∧ name ≠ ".."
  not_root : name ≠ "/"
  short : name.utf8ByteSize ≤ nameLimit

inductive Opens : Folder → Way → List String → Folder → Way → Prop
  | done {f : Folder} {way : Way} (hway : f.get? way = some .folder) : Opens f way [] f way
  | stay {f g : Folder} {way there : Way} {name : String} {names : List String}
      (hname : name = "" ∨ name = ".") (hrest : Opens f way names g there) :
      Opens f way (name :: names) g there
  | up {f g : Folder} {way there : Way} {names : List String} (hway : f.get? way = some .folder)
      (hrest : Opens f (up way) names g there) : Opens f way (".." :: names) g there
  | enter {f g : Folder} {way there : Way} {name : String} {names : List String}
      (hway : f.get? way = some .folder) (hname : Proper name)
      (hrest : Opens f (way ++ [name]) names g there) : Opens f way (name :: names) g there
  | make {f g : Folder} {way there : Way} {name : String} {names : List String}
      (hway : f.get? way = some .folder) (hname : Proper name)
      (habsent : f.get? (way ++ [name]) = none)
      (hrest : Opens (f.set (way ++ [name]) .folder) (way ++ [name]) names g there) :
      Opens f way (name :: names) g there

theorem isAbove_append (hname : Proper name) (way : Way) : isAbove (way ++ [name]) = false := by
  simp [isAbove, hname.not_dots.2.2, hname.not_root]

theorem get?_set_self (hname : Proper name) (f : Folder) (way : Way) (e : FolderEntry) :
    (f.set (way ++ [name]) e).get? (way ++ [name]) = some e := by
  rw [get?, isAbove_append hname, if_neg Bool.false_ne_true, set]
  exact Std.ExtTreeMap.getElem?_insert_self

theorem get?_set_of_ne {way other : Way} (hne : way ≠ other) (f : Folder) (e : FolderEntry) :
    (f.set way e).get? other = f.get? other := by
  simp [get?, set, Std.ExtTreeMap.getElem?_insert, hne]

def Keeps (f g : Folder) : Prop :=
  ∀ way, f.get? way = some .folder → g.get? way = some .folder

theorem Keeps.trans (hfg : Keeps f g) (hgh : Keeps g h) : Keeps f h :=
  fun way hway => hgh way (hfg way hway)

theorem keeps_set {e : FolderEntry} (hway : f.get? way ≠ some .folder) : Keeps f (f.set way e) := by
  intro other hother
  rw [get?_set_of_ne _ f e]
  · exact hother
  · rintro rfl
    exact hway hother

theorem Opens.start (h : Opens f way names g there) : f.get? way = some .folder := by
  induction h with
  | done hway => exact hway
  | stay hname hrest ih => exact ih
  | up hway => exact hway
  | enter hway => exact hway
  | make hway => exact hway

theorem Opens.keeps (h : Opens f way names g there) : Keeps f g := by
  induction h with
  | done => exact fun _ => id
  | stay _ _ ih => exact ih
  | up _ _ ih => exact ih
  | enter _ _ _ ih => exact ih
  | make _ _ habsent _ ih => exact (keeps_set (by rw [habsent]; nofun)).trans ih

theorem Opens.end (h : Opens f way names g there) : g.get? there = some .folder := by
  induction h with
  | done hway => exact hway
  | stay _ _ ih => exact ih
  | up _ _ ih => exact ih
  | enter _ _ _ ih => exact ih
  | make _ _ _ _ ih => exact ih

theorem step?_stay (hway : f.get? way = some .folder) (hname : name = "" ∨ name = ".") :
    f.step? way name = some way := by
  rw [step?, if_neg (not_not.2 hway)]
  rcases hname with rfl | rfl <;> rfl

theorem step?_up (hway : f.get? way = some .folder) : f.step? way ".." = some (up way) := by
  rw [step?, if_neg (not_not.2 hway)]
  rfl

theorem step?_proper (hway : f.get? way = some .folder) (hname : Proper name) :
    f.step? way name = some (way ++ [name]) := by
  obtain ⟨hempty, hdot, hdots⟩ := hname.not_dots
  simp [step?, hway, hempty, hdot, hdots, hname.short]

theorem Opens.foldlM_step? (h : Opens f way names g there) {k : Folder} (hk : Keeps g k) :
    names.foldlM k.step? way = some there := by
  induction h with
  | done => rfl
  | stay hname hrest ih =>
      rw [List.foldlM_cons, step?_stay ((hrest.keeps.trans hk) _ hrest.start) hname]
      exact ih hk
  | up hway hrest ih =>
      rw [List.foldlM_cons, step?_up ((hrest.keeps.trans hk) _ hway)]
      exact ih hk
  | enter hway hname hrest ih =>
      rw [List.foldlM_cons, step?_proper ((hrest.keeps.trans hk) _ hway) hname]
      exact ih hk
  | make hway hname habsent hrest ih =>
      have hkeeps := (keeps_set (e := .folder) (by rw [habsent]; nofun)).trans hrest.keeps
      rw [List.foldlM_cons, step?_proper ((hkeeps.trans hk) _ hway) hname]
      exact ih hk

theorem Opens.makeAlong_eq (h : Opens f way names g there) : f.makeAlong way names = (true, g) := by
  induction h with
  | done => rfl
  | stay hname hrest ih =>
      rw [makeAlong, step?_stay hrest.start hname]
      simp only [hrest.start, ih]
  | up hway hrest ih =>
      rw [makeAlong, step?_up hway]
      simp only [hrest.start, ih]
  | enter hway hname hrest ih =>
      rw [makeAlong, step?_proper hway hname]
      simp only [hrest.start, ih]
  | make hway hname habsent hrest ih =>
      rw [makeAlong, step?_proper hway hname]
      simp only [habsent, ih]

theorem Opens.of_stays (h : Opens f way ys g there) (hys : ∀ y ∈ ys, y = "" ∨ y = ".") :
    Opens f way [] g there := by
  have not_proper {name : String} (hname : Proper name) : ¬ (name = "" ∨ name = ".") :=
    not_or.2 ⟨hname.not_dots.1, hname.not_dots.2.1⟩
  induction h with
  | done hway => exact .done hway
  | stay _ _ ih => exact ih fun y hy => hys y (List.mem_cons_of_mem _ hy)
  | up => exact absurd (hys ".." List.mem_cons_self) (by decide)
  | enter _ hname => exact absurd (hys _ List.mem_cons_self) (not_proper hname)
  | make _ hname => exact absurd (hys _ List.mem_cons_self) (not_proper hname)

theorem Opens.of_append (h : Opens f way (xs ++ ys) g there) (hys : ∀ y ∈ ys, y = "" ∨ y = ".") :
    Opens f way xs g there := by
  induction xs generalizing f way with
  | nil => exact h.of_stays hys
  | cons x xs ih =>
      cases h with
      | stay hname hrest => exact .stay hname (ih hrest)
      | up hway hrest => exact .up hway (ih hrest)
      | enter hway hname hrest => exact .enter hway hname (ih hrest)
      | make hway hname habsent hrest => exact .make hway hname habsent (ih hrest)

section Names

variable {path : String} {dirs : List String}

theorem splitPath_eq_splitOn (cs : List Char) : splitPath cs = cs.splitOn '/' := by
  induction cs with
  | nil => rfl
  | cons c cs ih =>
      rw [List.splitOn_cons_eq_if_modifyHead, ← ih]
      by_cases hc : c = '/'
      · subst hc
        rfl
      · have hne : splitPath cs ≠ [] := ih ▸ List.splitOn_ne_nil '/' cs
        rw [splitPath, if_neg (by simpa using hc)]
        · cases hsplit : splitPath cs with
          | nil => exact absurd hsplit hne
          | cons name names => rfl
        · exact hc

theorem trimEnd_append (names : List String) :
    ∃ stays, names = trimEnd names ++ stays ∧ ∀ n ∈ stays, n = "" ∨ n = "." := by
  cases names with
  | nil => exact ⟨[], rfl, nofun⟩
  | cons name rest =>
      let isStay : String → Bool := fun n => n = "" || n = "."
      refine ⟨(rest.reverse.takeWhile isStay).reverse, ?_, fun n hn => ?_⟩
      · rw [trimEnd, List.cons_append, ← List.reverse_append, List.takeWhile_append_dropWhile,
          List.reverse_reverse]
      · have hstay := List.mem_takeWhile_imp (List.mem_reverse.1 hn)
        simpa [isStay] using hstay

theorem trimEnd_concat (hname : Proper name) (names : List String) :
    trimEnd (names ++ [name]) = names ++ [name] := by
  cases names with
  | nil => rfl
  | cons first rest =>
      simp [trimEnd, hname.not_dots.1, hname.not_dots.2.1]

theorem parent?_concat (hpath : path ≠ "") (hnames : Folder.names path = dirs ++ [name])
    (hname : Proper name) : parent? path = some ("/".intercalate (trimEnd dirs)) := by
  rw [parent?, if_neg hpath, hnames, trimEnd_concat hname]
  cases dirs with
  | nil => rfl
  | cons first rest =>
      obtain ⟨next, more, hrest⟩ : ∃ next more, rest ++ [name] = next :: more :=
        List.exists_cons_of_ne_nil (List.append_ne_nil_of_right_ne_nil _ (List.cons_ne_nil _ _))
      have hlast : (first :: next :: more).dropLast = first :: rest := by
        rw [← hrest, ← List.cons_append, List.dropLast_concat]
      rw [List.cons_append, hrest]
      simp only [hlast]

theorem slash_not_mem_splitPath (cs : List Char) : ∀ p ∈ splitPath cs, '/' ∉ p := by
  fun_induction splitPath cs with
  | case1 => simp
  | case2 cs ih => exact List.forall_mem_cons.2 ⟨by simp, ih⟩
  | case3 c cs hc hsplit => simpa [eq_comm] using hc
  | case4 c cs hc name names hsplit ih =>
      rw [hsplit] at ih
      obtain ⟨hname, hnames⟩ := List.forall_mem_cons.1 ih
      refine List.forall_mem_cons.2 ⟨fun hmem => ?_, hnames⟩
      exact (List.mem_cons.1 hmem).elim (fun heq => hc heq.symm) hname

theorem slash_not_mem_names (hp : name ∈ Folder.names path) : '/' ∉ name.toList := by
  obtain ⟨p, hmem, rfl⟩ := List.mem_map.1 hp
  rw [String.toList_ofList]
  exact slash_not_mem_splitPath _ p hmem

theorem toList_slash : "/".toList = ['/'] :=
  rfl

theorem map_ofList_toList (parts : List String) :
    (parts.map String.toList).map String.ofList = parts := by
  rw [List.map_map]
  simp

theorem names_intercalate {parts : List String} (hne : parts ≠ [])
    (hparts : ∀ p ∈ parts, '/' ∉ p.toList) : Folder.names ("/".intercalate parts) = parts := by
  have hslash : ∀ l ∈ parts.map String.toList, '/' ∉ l := by
    intro l hl
    obtain ⟨p, hp, rfl⟩ := List.mem_map.1 hl
    exact hparts p hp
  rw [Folder.names, splitPath_eq_splitOn, String.toList_intercalate, toList_slash,
    List.splitOn_intercalate '/' hslash (List.map_eq_nil_iff.not.2 hne), map_ofList_toList]

theorem intercalate_names (path : String) : "/".intercalate (Folder.names path) = path := by
  rw [← String.toList_inj, String.toList_intercalate, toList_slash, Folder.names, List.map_map]
  simp [Function.comp_def, splitPath_eq_splitOn, List.intercalate_splitOn]

end Names

inductive Leads (f : Folder) (path : String) : Folder → Way → Prop
  | intro {g : Folder} {there : Way} {dirs : List String} {name : String}
      (hpath : isPath path = true) (hnames : Folder.names path = dirs ++ [name]) (hname : Proper name)
      (hopens : Opens f (start path) dirs g there)
      (hfile : g.get? (there ++ [name]) ≠ some .folder) : Leads f path g (there ++ [name])

def Writable (f : Folder) (path : String) : Prop :=
  ∃ g place, Leads f path g place

section Write

variable {path : String} {dirs : List String}

theorem eq_blank_of_intercalate {parts : List String} (hparts : ∀ p ∈ parts, '/' ∉ p.toList)
    (h : "/".intercalate parts = "") : ∀ p ∈ parts, p = "" := by
  cases parts with
  | nil => exact nofun
  | cons first rest =>
      have hnames := names_intercalate (List.cons_ne_nil first rest) hparts
      rw [h] at hnames
      rw [← hnames]
      decide

theorem path_eq_append (hnames : Folder.names path = dirs ++ [name]) (hne : trimEnd dirs ≠ []) :
    ∃ tail, path = "/".intercalate (trimEnd dirs) ++ tail := by
  obtain ⟨stays, hdirs, _⟩ := trimEnd_append dirs
  have hpath := intercalate_names path
  rw [hnames, hdirs, List.append_assoc, String.intercalate_append_of_ne_nil hne (by simp),
    String.append_assoc] at hpath
  exact ⟨_, hpath.symm⟩

theorem isPath_of_append {front tail : String} (h : isPath (front ++ tail) = true)
    (hne : front ≠ "") : isPath front = true := by
  simp only [isPath, String.utf8ByteSize_append, String.toList_append, Bool.and_eq_true,
    decide_eq_true_eq, Bool.not_eq_true', List.contains_eq_mem, decide_eq_false_iff_not,
    List.mem_append, not_or] at h ⊢
  exact ⟨⟨hne, by omega⟩, h.2.1⟩

theorem start_append {front : String} (hne : front ≠ "") (tail : String) :
    start (front ++ tail) = start front := by
  rw [start, start, String.toList_append]
  cases hfront : front.toList with
  | nil => exact absurd (String.toList_eq_nil_iff.1 hfront) hne
  | cons c cs => rfl

-- The names of the parent are those before the last one of the path, without those at their end that
-- lead nowhere. An empty parent stands for the folder itself or for the root.
theorem makeFolders_parent (hpath : isPath path = true) (hnames : Folder.names path = dirs ++ [name])
    (hopens : Opens f (start path) dirs g there) :
    f.makeFolders ("/".intercalate (trimEnd dirs)) = (true, g) := by
  obtain ⟨stays, hdirs, hstays⟩ := trimEnd_append dirs
  have hslash : ∀ p ∈ trimEnd dirs, '/' ∉ p.toList := by
    intro p hp
    have hmem : p ∈ Folder.names path := by
      rw [hnames, hdirs]
      simp [hp]
    exact slash_not_mem_names hmem
  rw [makeFolders]
  split
  · next hempty =>
      have hblank : ∀ n ∈ dirs, n = "" ∨ n = "." := by
        rw [hdirs]
        intro n hn
        rcases List.mem_append.1 hn with hn | hn
        · exact .inl (eq_blank_of_intercalate hslash hempty n hn)
        · exact hstays n hn
      cases hopens.of_stays hblank
      rfl
  · next hparent =>
      have hne : trimEnd dirs ≠ [] := fun hnil => hparent (by rw [hnil]; rfl)
      obtain ⟨tail, htail⟩ := path_eq_append hnames hne
      have hstart : start ("/".intercalate (trimEnd dirs)) = start path :=
        (start_append hparent tail).symm.trans (congrArg start htail.symm)
      rw [if_pos (isPath_of_append (htail ▸ hpath) hparent), hstart, names_intercalate hne hslash]
      rw [hdirs] at hopens
      exact (hopens.of_append hstays).makeAlong_eq

variable {place : Way}

theorem Leads.parent (h : Leads f path g place) :
    ∃ parent, parent? path = some parent ∧ f.makeFolders parent = (true, g) := by
  cases h with
  | intro hpath hnames hname hopens =>
      have hne : path ≠ "" := by
        rintro rfl
        cases hpath
      exact ⟨_, parent?_concat hne hnames hname, makeFolders_parent hpath hnames hopens⟩

theorem Leads.follow? (h : Leads f path g place) {k : Folder} (hk : Keeps g k) :
    k.follow? path = some place := by
  cases h with
  | intro hpath hnames hname hopens =>
      rw [Folder.follow?, if_pos hpath, hnames, List.foldlM_append, hopens.foldlM_step? hk]
      simp only [Option.bind_eq_bind, Option.bind_some, List.foldlM_cons, List.foldlM_nil,
        step?_proper (hk _ hopens.end) hname]
      rfl

theorem Leads.write? (h : Leads f path g place) (text : String) :
    g.write? path text = some (g.set place (.file text)) := by
  have hfollow := h.follow? (k := g) fun _ => id
  cases h with
  | intro hpath hnames hname hopens hfile =>
      obtain ⟨hempty, hdot, hdots⟩ := hname.not_dots
      simp only [Folder.write?, hfollow, hnames, Option.bind_eq_bind, Option.bind_some,
        List.getLast?_concat, hempty, hdot, hdots, decide_false, Bool.or_self, Bool.false_eq_true,
        if_false]

theorem Leads.read? (h : Leads f path g place) (text : String) :
    (g.set place (.file text)).read? path = some text := by
  have hkeeps : Keeps g (g.set place (.file text)) := by
    cases h with
    | intro _ _ _ _ hfile => exact keeps_set hfile
  rw [Folder.read?, h.follow? hkeeps]
  cases h with
  | intro _ _ hname =>
      simp only [Option.bind_eq_bind, Option.bind_some, get?_set_self hname]

end Write

end RuleInduction.Folder
