import Asm6502.CommandLine.Outcome
import Asm6502.Proofs.Arguments
import Asm6502.Proofs.Files

/-!
A command line does all of its work or none. It succeeds exactly when its arguments are well-formed,
its input is a text that assembles and its output can be created; then it writes the output and
nothing else, and otherwise it leaves every file as it was. There is one exception: an input such as
`..asm` has no output of its own, and the run fails.
-/

namespace Asm6502.CommandLine

/-! ## The path of the output -/

/-- `Extended extension path path'`: the last component of `path` has its extension replaced in
`path'`, or has none and gets one. A dot in front of a name starts no extension. -/
inductive Extended (extension : Text) : Text → Text → Prop
  | replaced {directory base tail : Text} (hdirectory : ∀ c ∈ directory.getLast?, c = '/')
      (hname : IsName (base ++ '.' :: tail)) (htail : '.' ∉ tail) (hbase : base ≠ []) :
      Extended extension (directory ++ (base ++ '.' :: tail))
        (directory ++ (base ++ '.' :: extension))
  | added {directory name : Text} {c : Char} (hdirectory : ∀ c ∈ directory.getLast?, c = '/')
      (hname : IsName (c :: name)) (hdots : '.' ∉ name) :
      Extended extension (directory ++ c :: name)
        (directory ++ (c :: name ++ '.' :: extension))

/-- The output that is asked for: the one of the arguments, or else the input with the extension
`mif`. -/
inductive Destination (o : Options) : Text → Prop
  | named {path : Text} (h : o.output = some path) : Destination o path
  | derived {path : Text} (hnone : o.output = none) (h : Extended "mif".toList o.input path) :
      Destination o path

/-- The output is left to an input such as `..asm`: what stands in front of its extension is a
single dot. -/
structure Nameless (o : Options) (directory tail : Text) : Prop where
  unnamed : o.output = none
  input : o.input = directory ++ ("..".toList ++ tail)
  closed : ∀ c ∈ directory.getLast?, c = '/'
  tail_ne_nil : tail ≠ []
  no_dot : '.' ∉ tail
  no_slash : '/' ∉ tail

theorem stem_of_extension {base tail : Text} (hbase : base ≠ []) (htail : '.' ∉ tail) :
    stem (base ++ '.' :: tail) = base := by
  have hsolid : ∀ c ∈ tail.reverse, decide (c = '.') = false :=
    Text.ne_of_not_mem (by rwa [List.mem_reverse])
  have hreverse : (base ++ '.' :: tail).reverse = tail.reverse ++ '.' :: base.reverse := by simp
  have hafter : Text.after? (· = '.') (base ++ '.' :: tail).reverse = some base.reverse := by
    rw [hreverse]
    exact Text.after?_append hsolid (by simp)
  have hne : base.reverse ≠ [] := by simpa using hbase
  rw [stem, hafter]
  simp only [if_neg hne, List.reverse_reverse]

theorem stem_of_no_extension {c : Char} {name : Text} (h : '.' ∉ name) :
    stem (c :: name) = c :: name := by
  have hsolid : ∀ d ∈ name.reverse, decide (d = '.') = false :=
    Text.ne_of_not_mem (by rwa [List.mem_reverse])
  have hafter : Text.after? (· = '.') (c :: name).reverse = Text.after? (· = '.') [c] := by
    rw [List.reverse_cons, Text.after?_append_left hsolid]
  rw [stem, hafter]
  by_cases hc : c = '.'
  · rw [hc]
    rfl
  · have hout : '.' ∉ [c] := by
      rw [List.mem_singleton]
      exact Ne.symm hc
    rw [Text.after?_eq_none (Text.ne_of_not_mem hout)]

theorem skipDots_append {name : Text} (hslash : '/' ∉ name) (hne : name ≠ [])
    (hdot : name ≠ ".".toList) (rest : Text) : skipDots (name ++ rest) = name ++ rest := by
  rcases name with _ | ⟨c, _ | ⟨d, name⟩⟩
  · exact absurd rfl hne
  · have hc : c ≠ '/' := by simpa [eq_comm] using hslash
    have hc' : c ≠ '.' := by simpa using hdot
    unfold skipDots
    split <;> simp_all
  · have hc : c ≠ '/' ∧ d ≠ '/' := by
      simp only [List.mem_cons, not_or] at hslash
      exact ⟨Ne.symm hslash.1, Ne.symm hslash.2.1⟩
    unfold skipDots
    split <;> simp_all

theorem withExtension_append {directory name : Text} (extension : Text)
    (hdirectory : ∀ c ∈ directory.getLast?, c = '/') (hname : IsName name) :
    withExtension extension (directory ++ name) =
      if stem name = ".".toList then directory ++ "..".toList
      else directory ++ stem name ++ '.' :: extension := by
  have hslash : '/' ∉ name.reverse := by
    rw [List.mem_reverse]
    exact hname.no_slash
  have hbody : (skipDots (directory ++ name).reverse).reverse = directory ++ name := by
    rw [List.reverse_append, skipDots_append hslash (by simpa using hname.ne_nil)
      (fun h => hname.ne_dot (List.reverse_eq_iff.mp h)), ← List.reverse_append,
      List.reverse_reverse]
  have hstop : Text.before (· = '/') directory.reverse = [] := by
    apply Text.before_eq_nil
    rw [List.head?_reverse]
    intro c hc
    exact decide_eq_true (hdirectory c hc)
  have hlast : (Text.before (· = '/') (directory ++ name).reverse).reverse = name := by
    rw [List.reverse_append, Text.before_append_left (Text.ne_of_not_mem hslash), hstop,
      List.append_nil, List.reverse_reverse]
  have hlength : (directory ++ name).length - name.length = directory.length := by
    rw [List.length_append]
    omega
  have htake : (directory ++ name).take directory.length = directory := List.take_left
  simp only [withExtension, hbody, hlast, hlength, htake, hname.ne_nil, hname.ne_dot,
    hname.ne_dots, or_self, if_false, and_true]

theorem exists_name (path : Text) : ∃ directory name, path = directory ++ name ∧
    (∀ c ∈ directory.getLast?, c = '/') ∧ '/' ∉ name := by
  by_cases hslash : '/' ∈ path
  · obtain ⟨front, name, rfl, hname⟩ := Text.exists_last_cut hslash
    exact ⟨front ++ ['/'], name, by simp, by simp, hname⟩
  · exact ⟨[], path, rfl, by simp, hslash⟩

theorem exists_extended (extension : Text) {directory name : Text}
    (hdirectory : ∀ c ∈ directory.getLast?, c = '/') (hname : IsName name) :
    ∃ path, Extended extension (directory ++ name) path := by
  obtain ⟨c, rest, rfl⟩ := List.exists_cons_of_ne_nil hname.ne_nil
  by_cases hrest : '.' ∈ rest
  · obtain ⟨front, tail, rfl, htail⟩ := Text.exists_last_cut hrest
    have hreplaced : Extended extension (directory ++ (c :: front ++ '.' :: tail)) _ :=
      .replaced hdirectory hname htail (List.cons_ne_nil c front)
    exact ⟨_, hreplaced⟩
  · exact ⟨_, .added hdirectory hname hrest⟩

/-- Every input that can be read has a `Destination`. -/
theorem exists_destination {tree : FileTree} {o : Options} {bytes : ByteArray}
    (h : tree.read o.input = .ok bytes) : ∃ path, Destination o path := by
  cases houtput : o.output with
  | some path => exact ⟨path, .named houtput⟩
  | none =>
    obtain ⟨directory, name, hinput, hdirectory, hslash⟩ := exists_name o.input
    rw [hinput] at h
    have hname := FileTree.isName_of_read hdirectory hslash h
    obtain ⟨path, hpath⟩ := exists_extended "mif".toList hdirectory hname
    exact ⟨path, .derived houtput (hinput ▸ hpath)⟩

theorem Destination.outputPath_eq {o : Options} {path : Text} (h : Destination o path)
    (hnameless : ∀ directory tail, ¬ Nameless o directory tail) : o.outputPath = path := by
  cases h with
  | named houtput =>
    rw [Options.outputPath, houtput]
    rfl
  | derived hnone h =>
    rw [Options.outputPath, hnone, Option.getD_none]
    generalize hinput : o.input = input at h ⊢
    cases h with
    | @replaced directory base tail hdirectory hname htail hbase =>
      -- a base of a single dot is what `Nameless` is about
      have hdot : base ≠ ".".toList := by
        rintro rfl
        refine hnameless directory tail ⟨hnone, hinput, hdirectory, ?_, htail, ?_⟩
        · rintro rfl
          exact hname.ne_dots rfl
        · exact fun hslash => hname.no_slash (by simp [hslash])
      rw [withExtension_append _ hdirectory hname, stem_of_extension hbase htail, if_neg hdot,
        List.append_assoc]
    | added hdirectory hname hdots =>
      rw [withExtension_append _ hdirectory hname, stem_of_no_extension hdots,
        if_neg hname.ne_dot, List.append_assoc]

theorem Nameless.outputPath_eq {o : Options} {directory tail : Text}
    (h : Nameless o directory tail) : o.outputPath = directory ++ "..".toList := by
  have hname : IsName ("..".toList ++ tail) :=
    ⟨by simpa using h.no_slash, by simp, by simp, by simpa using h.tail_ne_nil⟩
  have hstem : stem ("..".toList ++ tail) = ".".toList :=
    stem_of_extension (List.cons_ne_nil '.' []) h.no_dot
  rw [Options.outputPath, h.unnamed, h.input, Option.getD_none,
    withExtension_append _ h.closed hname, if_pos hstem]

theorem Nameless.creationPlace_eq {tree : FileTree} {o : Options} {directory tail : Text}
    {bytes : ByteArray} (h : Nameless o directory tail) (hread : tree.read o.input = .ok bytes) :
    tree.creationPlace o.outputPath = .error .directory := by
  rw [h.input] at hread
  rw [h.outputPath_eq]
  exact FileTree.creationPlace_parent h.closed h.no_slash hread

/-! ## Outcomes -/

/-- Arguments that are `WellFormed`, and an input that is a text and assembles. -/
structure Assembles (tree : FileTree) (args : List Text) (o : Options) (source : Text)
    (a : Assembly) : Prop where
  arguments : WellFormed args o
  readable : tree.read o.input = .ok (String.ofList source).toUTF8
  assembled : (Assembly.ofSource {} source).result = .ok a

/-- What a command line needs for its `Destination`, which is then the file at `p`. -/
structure Saves (tree : FileTree) (args : List Text) (o : Options) (source : Text) (a : Assembly)
    (path : Text) (p : Place) : Prop extends Assembles tree args o source a where
  destination : Destination o path
  creatable : tree.creationPlace path = .ok p

theorem perform_save_of_ok {tree : FileTree} {path : Text} {p : Place}
    (h : tree.creationPlace path = .ok p) (content report : Text) :
    (Action.save path content report).perform tree =
      ⟨0, some report, some [], tree.put p (String.ofList content).toUTF8⟩ := by
  have hwrite : tree.writeText path content =
      .ok (tree.put p (String.ofList content).toUTF8) :=
    FileTree.writeText_eq_ok.mpr ⟨p, h, rfl⟩
  simp only [Action.perform, hwrite]

theorem perform_save_of_error {tree : FileTree} {path : Text} {fault : FileFault}
    (h : tree.creationPlace path = .error fault) (content report : Text) :
    (Action.save path content report).perform tree =
      ⟨1, some [], some (creationFailure path fault), tree⟩ := by
  have hwrite : tree.writeText path content = .error fault := by
    rw [FileTree.writeText, h]
    rfl
  simp only [Action.perform, hwrite, Outcome.failure]

theorem reportText_default (output : Text) (dump : Nat) (a : Assembly) :
    reportText output 0x1000 dump a =
      "Wrote ".toList ++ output ++ "\n\nMemory from $1000:\n".toList ++
        Dump.render a.image.toList 0x1000 dump ++ "\n\nLabels:\n".toList ++
        a.labels.entries.flatMap fun l =>
          "  ".toList ++ l.name ++ ": $".toList ++ Text.hex 4 l.address.toNat ++ "\n".toList := by
  have hheading : "\n\nMemory from $".toList ++
      (Text.hex 4 (0x1000 : UInt16).toNat ++ ":\n".toList) =
        "\n\nMemory from $1000:\n".toList := by decide
  -- with the texts as variables, so that no literal is looked into
  have hjoin : ∀ front middle address colon heading dump labels entries : Text,
      middle ++ (address ++ colon) = heading →
      front ++ middle ++ address ++ colon ++ dump ++ labels ++ entries =
        front ++ heading ++ dump ++ labels ++ entries := by
    rintro front middle address colon _ dump labels entries rfl
    simp only [List.append_assoc]
  exact hjoin _ _ _ _ _ _ _ _ hheading


theorem creationFailure_parent (directory : Text) :
    creationFailure (directory ++ "..".toList) .directory =
      "Error: Unable to create '".toList ++ directory ++
        "..'\n\nCaused by:\n    Is a directory (os error 21)\n".toList := by
  have hopening : "Error: ".toList ++ ("Unable to create ".toList ++ "'".toList) =
      "Error: Unable to create '".toList := by decide
  have hclosing : "..".toList ++ ("'".toList ++ ("\n\nCaused by:\n    ".toList ++
      (FileFault.directory.message ++ "\n".toList))) =
        "..'\n\nCaused by:\n    Is a directory (os error 21)\n".toList := by decide
  have hjoin : ∀ error task quote dots caused cause newline opening closing : Text,
      error ++ (task ++ quote) = opening →
      dots ++ (quote ++ (caused ++ (cause ++ newline))) = closing →
      error ++ task ++ quote ++ (directory ++ dots) ++ quote ++ [] ++ caused ++ cause ++ newline =
        opening ++ directory ++ closing := by
    rintro error task quote dots caused cause newline _ _ rfl rfl
    simp only [List.append_assoc, List.nil_append]
  exact hjoin _ _ _ _ _ _ _ _ _ hopening hclosing

theorem Assembles.run_eq {tree : FileTree} {args : List Text} {o : Options} {source : Text}
    {a : Assembly} (h : Assembles tree args o source a) :
    run tree args = (Action.save o.outputPath (Mif.render a.image.toList 0x1000)
      (reportText o.outputPath 0x1000 o.dump a)).perform tree := by
  have hrequest := Request.ofArguments_eq_assemble.mpr h.arguments
  have hread := FileTree.readText_eq_ok.mpr h.readable
  simp only [run, hrequest, hread, Options.plan, h.assembled]

theorem Saves.run_eq {tree : FileTree} {args : List Text} {o : Options} {source path : Text}
    {a : Assembly} {p : Place} (h : Saves tree args o source a path p)
    (hnameless : ∀ directory tail, ¬ Nameless o directory tail) :
    run tree args = ⟨0, some (reportText path 0x1000 o.dump a), some [],
      tree.put p (String.ofList (Mif.render a.image.toList 0x1000)).toUTF8⟩ := by
  rw [h.toAssembles.run_eq, h.destination.outputPath_eq hnameless, perform_save_of_ok h.creatable]

theorem Nameless.run_eq {tree : FileTree} {args : List Text} {o : Options} {source : Text}
    {a : Assembly} {directory tail : Text} (h : Nameless o directory tail)
    (hassembles : Assembles tree args o source a) :
    run tree args =
      ⟨1, some [], some (creationFailure (directory ++ "..".toList) .directory), tree⟩ := by
  rw [hassembles.run_eq, perform_save_of_error (h.creationPlace_eq hassembles.readable),
    h.outputPath_eq]

/-- A command line tells something of itself, or `Assembles`, or fails. -/
theorem run_cases (tree : FileTree) (args : List Text) :
    (Request.ofArguments args = some .version ∨ Request.ofArguments args = some .help) ∧
        (run tree args).exit = 0 ∨
      (∃ o source a, Assembles tree args o source a) ∨
      (run tree args).exit ≠ 0 ∧ (run tree args).tree = tree := by
  rcases hrequest : Request.ofArguments args with _ | o | _ | _
  · exact .inr (.inr (by simp [run, hrequest]))
  · right
    have hrun : run tree args = (o.plan (tree.readText o.input)).action.perform tree := by
      simp only [run, hrequest]
    rw [hrun]
    cases hread : tree.readText o.input with
    | error fault => exact .inr ⟨Nat.one_ne_zero, rfl⟩
    | ok source =>
      cases hresult : (Assembly.ofSource {} source).result with
      | error fault =>
        simp only [Options.plan, hresult]
        exact .inr ⟨Nat.one_ne_zero, rfl⟩
      | ok a =>
        exact .inl ⟨o, source, a, Request.ofArguments_eq_assemble.mp hrequest,
          FileTree.readText_eq_ok.mp hread, hresult⟩
  · exact .inl ⟨.inl rfl, by simp [run, hrequest]⟩
  · exact .inl ⟨.inr rfl, by simp [run, hrequest]⟩

theorem Assembles.saves_or_fails {tree : FileTree} {args : List Text} {o : Options} {source : Text}
    {a : Assembly} (h : Assembles tree args o source a) :
    (∃ path p, Saves tree args o source a path p) ∧
        (∀ directory tail, ¬ Nameless o directory tail) ∧ (run tree args).exit = 0 ∨
      (run tree args).exit ≠ 0 ∧ (run tree args).tree = tree := by
  cases hplace : tree.creationPlace o.outputPath with
  | error fault =>
    right
    rw [h.run_eq, perform_save_of_error hplace]
    exact ⟨Nat.one_ne_zero, rfl⟩
  | ok p =>
    left
    have hnameless : ∀ directory tail, ¬ Nameless o directory tail := by
      intro directory tail hnameless
      rw [hnameless.creationPlace_eq h.readable] at hplace
      cases hplace
    obtain ⟨path, hpath⟩ := exists_destination h.readable
    have houtput := hpath.outputPath_eq hnameless
    refine ⟨⟨path, p, h, hpath, houtput ▸ hplace⟩, hnameless, ?_⟩
    rw [h.run_eq, perform_save_of_ok hplace]

/-- A command line does all or nothing. If it fails, no file has changed. Unless it asks for the
version or for help, it succeeds exactly when its arguments are well-formed, its input is a text
that assembles and its output can be created (`Saves`), and the input is not `Nameless`. Then the
output is the image as a file, no other place and no directory has changed, and what is printed is
the dump from the start address and a line for each label, in their order. With a `Nameless` input
the run tries to create the parent directory and fails, whether or not its `Destination` could be
created. -/
theorem run_all_or_nothing (tree : FileTree) (args : List Text) :
    ((run tree args).exit ≠ 0 → (run tree args).tree = tree) ∧
    (Request.ofArguments args ≠ some .version → Request.ofArguments args ≠ some .help →
      ((run tree args).exit = 0 ↔
        ∃ o source a path p, Saves tree args o source a path p ∧
          ∀ directory tail, ¬ Nameless o directory tail)) ∧
    (∀ o source a path p, Saves tree args o source a path p →
      (∀ directory tail, ¬ Nameless o directory tail) →
      (run tree args).tree.readText path = .ok (Mif.render a.image.toList 0x1000) ∧
      (∀ q, (run tree args).tree.content? q =
        if q = p then some (String.ofList (Mif.render a.image.toList 0x1000)).toUTF8
        else tree.content? q) ∧
      (∀ q, (run tree args).tree.isDirectory q = tree.isDirectory q) ∧
      (run tree args).stdout = some ("Wrote ".toList ++ path ++
        "\n\nMemory from $1000:\n".toList ++ Dump.render a.image.toList 0x1000 o.dump ++
        "\n\nLabels:\n".toList ++ a.labels.entries.flatMap fun l =>
          "  ".toList ++ l.name ++ ": $".toList ++ Text.hex 4 l.address.toNat ++ "\n".toList)) ∧
    ∀ o source a directory tail, Assembles tree args o source a → Nameless o directory tail →
      run tree args = ⟨1, some [], some ("Error: Unable to create '".toList ++ directory ++
        "..'\n\nCaused by:\n    Is a directory (os error 21)\n".toList), tree⟩ := by
  refine ⟨?_, ?_, ?_, ?_⟩
  · intro hexit
    rcases run_cases tree args with ⟨-, hzero⟩ | ⟨o, source, a, h⟩ | ⟨-, htree⟩
    · exact absurd hzero hexit
    · rcases h.saves_or_fails with ⟨-, -, hzero⟩ | ⟨-, htree⟩
      · exact absurd hzero hexit
      · exact htree
    · exact htree
  · intro hversion hhelp
    constructor
    · intro hzero
      rcases run_cases tree args with ⟨hself, -⟩ | ⟨o, source, a, h⟩ | ⟨hexit, -⟩
      · exact absurd hself (not_or.mpr ⟨hversion, hhelp⟩)
      · rcases h.saves_or_fails with ⟨⟨path, p, hsaves⟩, hnameless, -⟩ | ⟨hexit, -⟩
        · exact ⟨o, source, a, path, p, hsaves, hnameless⟩
        · exact absurd hzero hexit
      · exact absurd hzero hexit
    · rintro ⟨o, source, a, path, p, h, hnameless⟩
      rw [h.run_eq hnameless]
  · intro o source a path p h hnameless
    rw [h.run_eq hnameless]
    refine ⟨?_, ?_, ?_, ?_⟩
    · exact FileTree.readText_eq_ok.mpr (FileTree.read_put h.creatable _)
    · intro q
      exact FileTree.content?_put tree p q _
    · exact FileTree.isDirectory_put (FileTree.isDirectory_of_leadsTo_created h.creatable) _
    · exact congrArg some (reportText_default path o.dump a)
  · intro o source a directory tail h hnameless
    rw [hnameless.run_eq h, creationFailure_parent]

/-- A label alone is assembled, under options on both sides of the input. -/
theorem run_all_or_nothing_of_label :
    ∃ tree o a p, Saves tree ["-vv".toList, "a.asm".toList, "--dump".toList, "2".toList] o
        "b:".toList a "a.mif".toList p ∧
      (run tree ["-vv".toList, "a.asm".toList, "--dump".toList, "2".toList]).exit = 0 ∧
      (run tree ["-vv".toList, "a.asm".toList, "--dump".toList, "2".toList]).tree.readText
        "a.mif".toList = .ok (Mif.render (Image.blank 0x4000).toList 0x1000) := by
  have hspelled : Item.AllSpelled [.verbose 2, .path "a.asm".toList, .dump 2]
      ["-vv".toList, "a.asm".toList, "--dump".toList, "2".toList] :=
    .cons (.verboseShort 1) (.cons (.path (.inr (by decide))) (.cons (.dump (by decide)) .nil))
  have hgiven : Options.Given ⟨"a.asm".toList, none, 2, 2, false⟩
      [.verbose 2, .path "a.asm".toList, .dump 2] :=
    ⟨⟨by decide, by decide, by decide, by decide⟩, rfl, rfl, rfl, rfl, by decide⟩
  have hextended : Extended "mif".toList ([] ++ (['a'] ++ '.' :: "asm".toList))
      ([] ++ (['a'] ++ '.' :: "mif".toList)) :=
    .replaced (by simp) ⟨by decide, by decide, by decide, by decide⟩ (by decide) (by decide)
  have hsaves : Saves
      (.ofWorkingDirectory [("a.asm".toList, (String.ofList "b:".toList).toUTF8)] [])
      ["-vv".toList, "a.asm".toList, "--dump".toList, "2".toList]
      ⟨"a.asm".toList, none, 2, 2, false⟩ "b:".toList
      ⟨.blank 0x4000, ⟨[⟨['b'], 0x1000, 1⟩]⟩, 0x1000⟩ "a.mif".toList
      ⟨.ancestor 0, ["a.mif".toList]⟩ :=
    ⟨⟨⟨_, hspelled, hgiven⟩, rfl, rfl⟩, .derived rfl hextended, rfl⟩
  have hnameless : ∀ directory tail,
      ¬ Nameless ⟨"a.asm".toList, none, 2, 2, false⟩ directory tail := by
    intro directory tail h
    have hinput : "a.asm".toList = directory ++ ("..".toList ++ tail) := h.input
    have hcount := congrArg (List.count '.') hinput
    have hone : "a.asm".toList.count '.' = 1 := by decide
    have htwo : "..".toList.count '.' = 2 := by decide
    rw [List.count_append, List.count_append] at hcount
    omega
  obtain ⟨-, hexit, hall, -⟩ := run_all_or_nothing
    (.ofWorkingDirectory [("a.asm".toList, (String.ofList "b:".toList).toUTF8)] [])
    ["-vv".toList, "a.asm".toList, "--dump".toList, "2".toList]
  have hzero := (hexit (by decide) (by decide)).mpr ⟨_, _, _, _, _, hsaves, hnameless⟩
  exact ⟨_, _, _, _, hsaves, hzero, (hall _ _ _ _ _ hsaves hnameless).1⟩

/-- Beside `..asm` a file `..mif` could be created, and yet the run fails. -/
theorem run_fails_of_nameless :
    ∃ tree o a p, Saves tree ["..asm".toList] o "LDA #$05\nend: JMP end\n".toList a
        "..mif".toList p ∧
      (run tree ["..asm".toList]).exit = 1 := by
  have hspelled : Item.AllSpelled [.path "..asm".toList] ["..asm".toList] :=
    .cons (.path (.inr (by decide))) .nil
  have hgiven : Options.Given ⟨"..asm".toList, none, 64, 0, false⟩ [.path "..asm".toList] :=
    ⟨⟨by decide, by decide, by decide, by decide⟩, rfl, rfl, rfl, rfl, by decide⟩
  have hextended : Extended "mif".toList ([] ++ (['.'] ++ '.' :: "asm".toList))
      ([] ++ (['.'] ++ '.' :: "mif".toList)) :=
    .replaced (by simp) ⟨by decide, by decide, by decide, by decide⟩ (by decide) (by decide)
  obtain ⟨a, hassembled⟩ : ∃ a,
      (Assembly.ofSource {} "LDA #$05\nend: JMP end\n".toList).result = .ok a := ⟨_, rfl⟩
  have hsaves : Saves
      (.ofWorkingDirectory
        [("..asm".toList, (String.ofList "LDA #$05\nend: JMP end\n".toList).toUTF8)] [])
      ["..asm".toList] ⟨"..asm".toList, none, 64, 0, false⟩ "LDA #$05\nend: JMP end\n".toList a
      "..mif".toList ⟨.ancestor 0, ["..mif".toList]⟩ :=
    ⟨⟨⟨_, hspelled, hgiven⟩, rfl, hassembled⟩, .derived rfl hextended, rfl⟩
  have hnameless : Nameless ⟨"..asm".toList, none, 64, 0, false⟩ [] "asm".toList :=
    ⟨rfl, rfl, by simp, by decide, by decide, by decide⟩
  exact ⟨_, _, _, _, hsaves, by rw [hnameless.run_eq hsaves.toAssembles]⟩

end Asm6502.CommandLine
