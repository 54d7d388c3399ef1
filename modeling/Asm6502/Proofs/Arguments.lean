import Asm6502.CommandLine.Request
import Mathlib.Data.List.Induction

/-!
What arguments say. A list of arguments asks for an assembly exactly when it spells out items, each
in one of a few ways, among which there are one or two paths, and at most one length of the dump
and one wish for a trace. The items give the options in any order.
-/

namespace Asm6502.CommandLine

/-! ## Items -/

inductive Item where
  | path (name : Text)
  | dump (length : Nat)
  | verbose (times : Nat)
  | trace
  deriving DecidableEq, Repr

namespace Item

/-- The ways to write an item among the options. -/
inductive Spelled : Item → List Text → Prop
  | path {name : Text} (h : name = ['-'] ∨ name.head? ≠ some '-') : Spelled (.path name) [name]
  | dump {value : Text} {length : Nat} (h : readCount value = some length) :
      Spelled (.dump length) ["--dump".toList, value]
  | dumpJoined {value : Text} {length : Nat} (h : readCount value = some length) :
      Spelled (.dump length) ["--dump=".toList ++ value]
  | verbose : Spelled (.verbose 1) ["--verbose".toList]
  | verboseShort (more : Nat) :
      Spelled (.verbose (more + 1)) ['-' :: List.replicate (more + 1) 'v']
  | trace : Spelled .trace ["--trace".toList]

/-- Items one after the other; behind a bare `--` every argument is a path. -/
inductive AllSpelled : List Item → List Text → Prop
  | nil : AllSpelled [] []
  | ended (paths : List Text) : AllSpelled (paths.map .path) ("--".toList :: paths)
  | cons {item : Item} {words : List Text} {items : List Item} {args : List Text}
      (h : item.Spelled words) (hrest : AllSpelled items args) :
      AllSpelled (item :: items) (words ++ args)

def path? : Item → Option Text
  | path name => some name
  | _ => none

def length? : Item → Option Nat
  | dump length => some length
  | _ => none

def paths (items : List Item) : List Text :=
  items.filterMap path?

def lengths (items : List Item) : List Nat :=
  items.filterMap length?

def times : Item → Nat
  | verbose times => times
  | _ => 0

def verbosity : List Item → Nat
  | [] => 0
  | item :: items => item.times + verbosity items

/-- What an item adds to a draft, unless the draft has no room for it. -/
def addTo (d : Draft) : Item → Option Draft
  | path name => d.addPath name
  | dump length => if d.dump.isSome then none else some { d with dump := some length }
  | verbose times => some { d with verbosity := d.verbosity + times }
  | trace => if d.trace then none else some { d with trace := true }

end Item

/-- Items that may stand together. -/
@[mk_iff] structure Admissible (items : List Item) : Prop where
  paths : (Item.paths items).length ≤ 2
  named : ∀ path ∈ Item.paths items, path ≠ []
  dumps : (Item.lengths items).length ≤ 1
  traces : items.count .trace ≤ 1

/-- The options that `Admissible` items give, and what is set where nothing is said. -/
structure Options.Given (o : Options) (items : List Item) : Prop where
  admissible : Admissible items
  input : (Item.paths items)[0]? = some o.input
  output : (Item.paths items)[1]? = o.output
  dump : o.dump = (Item.lengths items).head?.getD 64
  verbosity : o.verbosity = Item.verbosity items
  trace : o.trace = decide (.trace ∈ items)

/-- Arguments that ask for an assembly with these options. -/
def WellFormed (args : List Text) (o : Options) : Prop :=
  ∃ items, Item.AllSpelled items args ∧ o.Given items

/-! ## Reading one argument -/

namespace Argument

theorem ofText_of_plain {name : Text} (h : name = ['-'] ∨ name.head? ≠ some '-') :
    ofText name = .plain name := by
  rcases h with rfl | h
  · rfl
  · unfold ofText
    split <;> simp_all

theorem ofText_of_joined (name value : Text) (h : '=' ∉ name) :
    ofText ('-' :: '-' :: (name ++ '=' :: value)) = .long name (some value) := by
  have hname : ∀ c ∈ name, decide (c = '=') = false := Text.ne_of_not_mem h
  have hof : ofText ('-' :: '-' :: (name ++ '=' :: value)) =
      .long (Text.before (· = '=') (name ++ '=' :: value))
        (Text.after? (· = '=') (name ++ '=' :: value)) := by
    cases name <;> rfl
  rw [hof, Text.before_append hname (by simp), Text.after?_append hname (by simp)]

theorem eq_of_endOfOptions {arg : Text} (h : ofText arg = .endOfOptions) : arg = "--".toList := by
  unfold ofText at h
  split at h <;> simp_all

theorem eq_of_plain {arg name : Text} (h : ofText arg = .plain name) :
    arg = name ∧ (name = ['-'] ∨ name.head? ≠ some '-') := by
  unfold ofText at h
  split at h
  · cases h
  · cases h
  · cases h
  · rename_i hlong hshort
    obtain rfl : arg = name := by simpa using h
    refine ⟨rfl, ?_⟩
    rcases arg with _ | ⟨c, _ | ⟨d, rest⟩⟩
    · exact .inr (by simp)
    · by_cases hc : c = '-'
      · exact .inl (by rw [hc])
      · exact .inr (by simpa using hc)
    · right
      rintro ⟨⟩
      exact hshort d rest rfl

theorem eq_of_short {arg flags : Text} (h : ofText arg = .short flags) :
    arg = '-' :: flags ∧ flags ≠ [] := by
  unfold ofText at h
  split at h
  · cases h
  · cases h
  · cases h
    exact ⟨rfl, by simp⟩
  · cases h

theorem exists_of_long {arg name : Text} {value : Option Text} (h : ofText arg = .long name value) :
    ∃ rest, arg = '-' :: '-' :: rest ∧ name = Text.before (· = '=') rest ∧
      value = Text.after? (· = '=') rest := by
  unfold ofText at h
  split at h
  · cases h
  · rename_i rest _
    cases h
    exact ⟨rest, rfl, rfl, rfl⟩
  · cases h
  · cases h

theorem eq_of_long {arg name : Text} (h : ofText arg = .long name none) :
    arg = '-' :: '-' :: name := by
  obtain ⟨rest, rfl, rfl, hnone⟩ := exists_of_long h
  rw [Text.before_eq_self fun c hc => Text.eq_false_of_after?_eq_none hnone.symm hc]

theorem eq_of_joined {arg name value : Text} (h : ofText arg = .long name (some value)) :
    arg = '-' :: '-' :: (name ++ '=' :: value) := by
  obtain ⟨rest, rfl, rfl, hsome⟩ := exists_of_long h
  obtain ⟨c, hc, hrest⟩ := Text.after?_eq_some hsome.symm
  obtain rfl : c = '=' := by simpa using hc
  rw [← hrest]

end Argument

namespace Draft

theorem shortFlags_replicate (d : Draft) (times : Nat) :
    d.shortFlags (List.replicate times 'v') =
      .continued { d with verbosity := d.verbosity + times } := by
  induction times generalizing d with
  | zero => rfl
  | succ times ih =>
    rw [List.replicate_succ, shortFlags, ih]
    simp only [addVerbosity, Nat.add_assoc, Nat.add_comm 1]

theorem shortFlags_unknown {c : Char} (hv : c ≠ 'v') (hV : c ≠ 'V') (hh : c ≠ 'h') (d : Draft)
    (flags : Text) : d.shortFlags (c :: flags) = .refused := by
  rw [shortFlags]
  · exact hv
  · exact hV
  · exact hh

theorem shortFlags_continued {d u : Draft} {flags : Text} (h : d.shortFlags flags = .continued u) :
    flags = List.replicate flags.length 'v' := by
  induction d, flags using shortFlags.induct with
  | case1 d => rfl
  | case2 d flags ih =>
    rw [List.length_cons, List.replicate_succ, ← ih h]
  | case3 d flags => cases h
  | case4 d flags => cases h
  | case5 d c flags hv hV hh =>
    rw [shortFlags_unknown hv hV hh] at h
    cases h

theorem setDump_of_readCount {value : Text} {length : Nat} (h : readCount value = some length)
    (d : Draft) : d.setDump value = (Item.dump length).addTo d := by
  unfold setDump Item.addTo
  cases d.dump with
  | none => simp [h]
  | some other => rfl

/-- An item is read wherever it stands, in each of its spellings. -/
theorem read_spelled {item : Item} {words : List Text} (h : item.Spelled words) (d : Draft)
    (args : List Text) : d.read (words ++ args) = (item.addTo d).bind fun d => d.read args := by
  cases h with
  | @path name hname =>
    have hof := Argument.ofText_of_plain hname
    cases args <;> simp only [List.singleton_append, read, hof, Item.addTo] <;>
      cases d.addPath name <;> rfl
  | @dump value length hvalue =>
    have hof : Argument.ofText "--dump".toList = .long "dump".toList none := by decide
    rw [← setDump_of_readCount hvalue]
    simp only [List.cons_append, List.nil_append, read, hof]
    cases d.setDump value <;> rfl
  | @dumpJoined value length hvalue =>
    have hof : Argument.ofText ("--dump=".toList ++ value) = .long "dump".toList (some value) :=
      Argument.ofText_of_joined "dump".toList value (by decide)
    rw [← setDump_of_readCount hvalue]
    cases args <;> simp only [List.singleton_append, read, hof] <;>
      cases d.setDump value <;> rfl
  | verbose =>
    have hof : Argument.ofText "--verbose".toList = .long "verbose".toList none := by decide
    cases args <;> simp only [List.singleton_append, read, hof] <;> rfl
  | verboseShort more =>
    have hof : Argument.ofText ('-' :: List.replicate (more + 1) 'v') =
        .short (List.replicate (more + 1) 'v') := rfl
    cases args <;> simp only [List.singleton_append, read, hof, shortFlags_replicate] <;> rfl
  | trace =>
    have hof : Argument.ofText "--trace".toList = .long "trace".toList none := by decide
    have hne : "trace".toList ≠ "dump".toList := by decide
    have hflag : d.longFlag "trace".toList =
        if d.trace then .refused else .continued { d with trace := true } := rfl
    cases args <;> simp only [List.singleton_append, read, hof, if_neg hne, hflag, Item.addTo] <;>
      cases d.trace <;> rfl

theorem foldlM_paths (paths : List Text) (d : Draft) :
    (paths.map Item.path).foldlM Item.addTo d = paths.foldlM addPath d := by
  rw [List.foldlM_map]
  rfl

/-- What is `AllSpelled` is read as these items, one after the other. -/
theorem read_allSpelled {items : List Item} {args : List Text} (h : Item.AllSpelled items args)
    (d : Draft) : d.read args = (items.foldlM Item.addTo d).bind finish := by
  induction h generalizing d with
  | nil => rfl
  | ended paths =>
    have hof : Argument.ofText "--".toList = .endOfOptions := by decide
    rw [foldlM_paths]
    cases paths <;> simp only [read, hof]
  | @cons item words items args hitem _ ih =>
    rw [read_spelled hitem, List.foldlM_cons]
    cases item.addTo d with
    | none => rfl
    | some d => exact ih d

theorem longFlag_continued {d u : Draft} {name : Text} (h : d.longFlag name = .continued u) :
    name = "verbose".toList ∨ name = "trace".toList := by
  unfold longFlag at h
  split at h
  · exact .inl ‹_›
  · split at h
    · exact .inr ‹_›
    · split at h
      · cases h
      · split at h <;> cases h

theorem longFlag_settled {d : Draft} {name : Text} {request : Request}
    (h : d.longFlag name = .settled request) : request = .version ∨ request = .help := by
  unfold longFlag at h
  repeat' split at h
  all_goals cases h
  · exact .inl rfl
  · exact .inr rfl

theorem shortFlags_settled {d : Draft} {flags : Text} {request : Request}
    (h : d.shortFlags flags = .settled request) : request = .version ∨ request = .help := by
  induction d, flags using shortFlags.induct with
  | case1 d => cases h
  | case2 d flags ih => exact ih h
  | case3 d flags =>
    cases h
    exact .inl rfl
  | case4 d flags =>
    cases h
    exact .inr rfl
  | case5 d c flags hv hV hh =>
    rw [shortFlags_unknown hv hV hh] at h
    cases h

theorem exists_length_of_setDump {d u : Draft} {value : Text} (h : d.setDump value = some u) :
    ∃ length, readCount value = some length := by
  unfold setDump at h
  split at h
  · cases h
  · obtain ⟨length, hlength, -⟩ := Option.map_eq_some_iff.mp h
    exact ⟨length, hlength⟩

theorem exists_allSpelled {d : Draft} {args : List Text} {o : Options}
    (h : d.read args = some (.assemble o)) : ∃ items, Item.AllSpelled items args := by
  fun_induction read d args with
  | case1 d => exact ⟨[], .nil⟩
  | case2 d arg args hof =>
    rw [Argument.eq_of_endOfOptions hof]
    exact ⟨_, .ended args⟩
  | case4 d arg args name hof u hu ih =>
    obtain ⟨rfl, hname⟩ := Argument.eq_of_plain hof
    obtain ⟨items, hitems⟩ := ih h
    exact ⟨_, .cons (.path hname) hitems⟩
  | case6 d arg args flags hof request hrequest =>
    rcases shortFlags_settled hrequest with rfl | rfl <;> cases h
  | case7 d arg args flags hof u hu ih =>
    obtain ⟨rfl, hne⟩ := Argument.eq_of_short hof
    obtain ⟨items, hitems⟩ := ih h
    obtain ⟨more, hmore⟩ := Nat.exists_eq_succ_of_ne_zero fun hzero =>
      hne (List.eq_nil_of_length_eq_zero hzero)
    rw [shortFlags_continued hu, hmore]
    exact ⟨_, .cons (.verboseShort more) hitems⟩
  | case9 d arg args value u hu hof ih =>
    obtain ⟨length, hlength⟩ := exists_length_of_setDump hu
    obtain ⟨items, hitems⟩ := ih h
    rw [Argument.eq_of_joined hof]
    exact ⟨_, .cons (.dumpJoined hlength) hitems⟩
  | case13 d arg value args u hu hof ih =>
    obtain ⟨length, hlength⟩ := exists_length_of_setDump hu
    obtain ⟨items, hitems⟩ := ih h
    rw [Argument.eq_of_long hof]
    exact ⟨_, .cons (.dump hlength) hitems⟩
  | case15 d arg args name hof hne request hrequest =>
    rcases longFlag_settled hrequest with rfl | rfl <;> cases h
  | case16 d arg args name hof hne u hu ih =>
    obtain ⟨items, hitems⟩ := ih h
    rw [Argument.eq_of_long hof]
    rcases longFlag_continued hu with rfl | rfl
    · exact ⟨_, .cons .verbose hitems⟩
    · exact ⟨_, .cons .trace hitems⟩
  | _ => cases h

/-! ## Gathering items -/

/-- The draft of `Admissible` items. -/
def ofItems (items : List Item) : Draft where
  input := (Item.paths items)[0]?
  output := (Item.paths items)[1]?
  dump := (Item.lengths items).head?
  verbosity := Item.verbosity items
  trace := decide (.trace ∈ items)

/-- Whether one more item may stand behind others. -/
def HasRoom (items : List Item) : Item → Prop
  | .path name => (Item.paths items).length < 2 ∧ name ≠ []
  | .dump _ => Item.lengths items = []
  | .verbose _ => True
  | .trace => .trace ∉ items

theorem paths_concat (items : List Item) (item : Item) :
    Item.paths (items ++ [item]) = Item.paths items ++ item.path?.toList := by
  unfold Item.paths
  rw [List.filterMap_append]
  cases item <;> rfl

theorem lengths_concat (items : List Item) (item : Item) :
    Item.lengths (items ++ [item]) = Item.lengths items ++ item.length?.toList := by
  unfold Item.lengths
  rw [List.filterMap_append]
  cases item <;> rfl

theorem verbosity_concat (items : List Item) (item : Item) :
    Item.verbosity (items ++ [item]) = Item.verbosity items + item.times := by
  induction items with
  | nil => exact (Nat.zero_add item.times).symm
  | cons first items ih =>
    rw [List.cons_append, Item.verbosity, Item.verbosity, ih]
    omega

theorem admissible_concat (items : List Item) (item : Item) :
    Admissible (items ++ [item]) ↔ Admissible items ∧ HasRoom items item := by
  rw [admissible_iff, admissible_iff, paths_concat, lengths_concat, List.count_append]
  cases item with
  | path name =>
    simp only [Item.path?, Item.length?, Option.toList_some, Option.toList_none, List.append_nil,
      List.length_append, List.length_cons, List.length_nil, List.mem_append, List.mem_cons,
      List.not_mem_nil, or_false, or_imp, forall_and, forall_eq, List.count_cons_of_ne, ne_eq,
      reduceCtorEq, not_false_eq_true, List.count_nil, Nat.add_zero, HasRoom]
    grind
  | dump length =>
    simp only [Item.path?, Item.length?, Option.toList_some, Option.toList_none, List.append_nil,
      List.length_append, List.length_cons, List.length_nil, List.count_cons_of_ne, ne_eq,
      reduceCtorEq, not_false_eq_true, List.count_nil, Nat.add_zero, HasRoom]
    grind
  | verbose times => simp [Item.path?, Item.length?, HasRoom]
  | trace =>
    simp only [Item.path?, Item.length?, Option.toList_none, List.append_nil, List.count_cons_self,
      List.count_nil, HasRoom]
    grind

theorem addTo_ofItems {items : List Item} (h : Admissible items) (item : Item) (u : Draft) :
    item.addTo (ofItems items) = some u ↔ HasRoom items item ∧ u = ofItems (items ++ [item]) := by
  unfold ofItems
  rw [paths_concat, lengths_concat, verbosity_concat]
  cases item with
  | path name =>
    have hpaths := h.paths
    by_cases hname : name = []
    · simp [Item.addTo, addPath, HasRoom, hname]
    · rcases hitems : Item.paths items with _ | ⟨first, _ | ⟨second, _ | ⟨third, rest⟩⟩⟩
      · simp [Item.path?, Item.length?, Item.addTo, addPath, Item.times, HasRoom, hname, hitems,
          eq_comm]
      · simp [Item.path?, Item.length?, Item.addTo, addPath, Item.times, HasRoom, hname, hitems,
          eq_comm]
      · simp [Item.addTo, addPath, HasRoom, hname, hitems]
      · simp [hitems] at hpaths
  | dump length =>
    cases hitems : Item.lengths items with
    | nil => simp [Item.path?, Item.length?, Item.addTo, Item.times, HasRoom, hitems, eq_comm]
    | cons => simp [Item.addTo, HasRoom, hitems]
  | verbose times =>
    simp [Item.path?, Item.length?, Item.addTo, Item.times, HasRoom, eq_comm]
  | trace =>
    by_cases htrace : .trace ∈ items
    · simp [Item.addTo, HasRoom, htrace]
    · simp [Item.path?, Item.length?, Item.addTo, Item.times, HasRoom, htrace, eq_comm]

theorem foldlM_addTo (items : List Item) (u : Draft) :
    items.foldlM Item.addTo {} = some u ↔ Admissible items ∧ u = ofItems items := by
  induction items using List.reverseRecOn generalizing u with
  | nil =>
    have hempty : Admissible [] := ⟨by decide, by decide, by decide, by decide⟩
    simp [hempty, ofItems, Item.paths, Item.lengths, Item.verbosity, eq_comm]
  | append_singleton items item ih =>
    have hlast : (items ++ [item]).foldlM Item.addTo {} = some u ↔
        ∃ d, items.foldlM Item.addTo {} = some d ∧ item.addTo d = some u := by
      rw [List.foldlM_append]
      cases items.foldlM Item.addTo {} <;> simp
    rw [hlast, admissible_concat]
    constructor
    · rintro ⟨d, hd, hu⟩
      obtain ⟨hadmissible, rfl⟩ := (ih d).mp hd
      obtain ⟨hroom, hitems⟩ := (addTo_ofItems hadmissible item u).mp hu
      exact ⟨⟨hadmissible, hroom⟩, hitems⟩
    · rintro ⟨⟨hadmissible, hroom⟩, hitems⟩
      exact ⟨ofItems items, (ih _).mpr ⟨hadmissible, rfl⟩,
        (addTo_ofItems hadmissible item u).mpr ⟨hroom, hitems⟩⟩

theorem finish_ofItems {items : List Item} (h : Admissible items) (o : Options) :
    (ofItems items).finish = some (.assemble o) ↔ o.Given items := by
  unfold finish
  rw [Option.map_eq_some_iff]
  constructor
  · rintro ⟨input, hinput, ho⟩
    cases ho
    exact ⟨h, hinput, rfl, rfl, rfl, rfl⟩
  · rintro ⟨-, hinput, houtput, hdump, hverbosity, htrace⟩
    refine ⟨o.input, hinput, ?_⟩
    rcases o with ⟨input, output, dump, verbosity, trace⟩
    cases houtput
    cases hdump
    cases hverbosity
    cases htrace
    rfl

end Draft

/-- Arguments ask for an assembly exactly when they are `WellFormed`. -/
theorem Request.ofArguments_eq_assemble {args : List Text} {o : Options} :
    Request.ofArguments args = some (.assemble o) ↔ WellFormed args o := by
  constructor
  · intro h
    obtain ⟨items, hitems⟩ := Draft.exists_allSpelled h
    rw [Request.ofArguments, Draft.read_allSpelled hitems, Option.bind_eq_some_iff] at h
    obtain ⟨d, hd, hfinish⟩ := h
    obtain ⟨hadmissible, rfl⟩ := (Draft.foldlM_addTo items d).mp hd
    exact ⟨items, hitems, (Draft.finish_ofItems hadmissible o).mp hfinish⟩
  · rintro ⟨items, hitems, hgiven⟩
    rw [Request.ofArguments, Draft.read_allSpelled hitems, Option.bind_eq_some_iff]
    exact ⟨Draft.ofItems items, (Draft.foldlM_addTo items _).mpr ⟨hgiven.admissible, rfl⟩,
      (Draft.finish_ofItems hgiven.admissible o).mpr hgiven⟩

end Asm6502.CommandLine
