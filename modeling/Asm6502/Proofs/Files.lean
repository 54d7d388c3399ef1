import Asm6502.CommandLine.FileTree
import Asm6502.Proofs.Result
import Mathlib.Data.List.Basic

/-!
What writing a file changes. The place of the new file gets its bytes, every other place keeps what
it held, and no directory comes or goes, so a path that could be created is afterwards the path of
the text that was written to it.
-/

namespace Asm6502.CommandLine

/-! ## Places on the way to others -/

namespace Place

variable {p q r : Place}

theorem leadsTo_iff : p.leadsTo q = true ↔ p.anchor = q.anchor ∧ p.components <+: q.components := by
  simp [leadsTo]

theorem leadsTo_trans (hpq : p.leadsTo q = true) (hqr : q.leadsTo r = true) :
    p.leadsTo r = true := by
  rw [leadsTo_iff] at *
  exact ⟨hpq.1.trans hqr.1, hpq.2.trans hqr.2⟩

theorem leadsTo_antisymm (hpq : p.leadsTo q = true) (hqp : q.leadsTo p = true) : p = q := by
  rw [leadsTo_iff] at *
  have hcomponents := hpq.2.eq_of_length (Nat.le_antisymm hpq.2.length_le hqp.2.length_le)
  rcases p with ⟨anchor, components⟩
  rcases q with ⟨anchor', components'⟩
  cases hpq.1
  cases hcomponents
  rfl

end Place

/-- The last component of a path to a file; `.` and `..` stand for directories. -/
structure IsName (name : Text) : Prop where
  no_slash : '/' ∉ name
  ne_nil : name ≠ []
  ne_dot : name ≠ ".".toList
  ne_dots : name ≠ "..".toList

namespace FileTree

variable {t u : FileTree} {p q : Place}

/-! ## Directories -/

theorem isDirectory_iff : t.isDirectory p = true ↔
    p.components = [] ∨ (∃ d ∈ t.directories, p.leadsTo d = true) ∨
      ∃ file ∈ t.files, p.leadsTo file.1 = true ∧ p ≠ file.1 := by
  simp [isDirectory, or_assoc]

/-- What is on the way to a directory is one. -/
theorem isDirectory_of_leadsTo (h : p.leadsTo q = true) (hq : t.isDirectory q = true) :
    t.isDirectory p = true := by
  rw [isDirectory_iff] at *
  rcases hq with hroot | ⟨d, hd, hlead⟩ | ⟨file, hfile, hlead, hne⟩
  · left
    have hcomponents := (Place.leadsTo_iff.mp h).2
    rw [hroot] at hcomponents
    exact List.prefix_nil.mp hcomponents
  · exact .inr (.inl ⟨d, hd, Place.leadsTo_trans h hlead⟩)
  · refine .inr (.inr ⟨file, hfile, Place.leadsTo_trans h hlead, ?_⟩)
    rintro rfl
    exact hne (Place.leadsTo_antisymm hlead h)

theorem isDirectory_parent (h : t.isDirectory p = true) : t.isDirectory p.parent = true := by
  rcases p with ⟨anchor, _ | ⟨component, components⟩⟩
  · apply isDirectory_iff.mpr
    cases anchor with
    | root => exact .inl rfl
    | ancestor levels => exact .inl rfl
  · apply isDirectory_of_leadsTo _ h
    exact Place.leadsTo_iff.mpr ⟨rfl, List.dropLast_prefix _⟩

theorem isDirectory_descend_dots {name : Text} (hp : t.isDirectory p = true)
    (h : name = [] ∨ name = ".".toList ∨ name = "..".toList) :
    t.isDirectory (p.descend name) = true := by
  unfold Place.descend
  split
  · exact hp
  · rename_i hmove
    rw [not_or] at hmove
    have hup : name = "..".toList := (h.resolve_left hmove.1).resolve_left hmove.2
    rw [if_pos hup]
    exact isDirectory_parent hp

/-- What leads out of a directory to no directory is a name of its own. -/
theorem descend_of_not_isDirectory {name : Text} (hp : t.isDirectory p = true)
    (h : t.isDirectory (p.descend name) = false) :
    p.descend name = { p with components := p.components ++ [name] } := by
  have hdots := mt (isDirectory_descend_dots hp) (Bool.eq_false_iff.mp h)
  rw [not_or, not_or] at hdots
  rw [Place.descend, if_neg (not_or.mpr ⟨hdots.1, hdots.2.1⟩), if_neg hdots.2.2]

/-! ## The effect of a file -/

theorem lookup_map_of_eq {files : List (Place × ByteArray)} {bytes : ByteArray} :
    (files.map fun (q, old) => (q, if q = p then bytes else old)).lookup q =
      (files.lookup q).map fun old => if q = p then bytes else old := by
  induction files with
  | nil => rfl
  | cons file files ih =>
    rcases file with ⟨place, old⟩
    rw [List.map_cons, List.lookup_cons, List.lookup_cons, ih]
    by_cases hq : q = place
    · simp [hq]
    · simp [beq_false_of_ne hq]

theorem content?_put (t : FileTree) (p q : Place) (bytes : ByteArray) :
    (t.put p bytes).content? q = if q = p then some bytes else t.content? q := by
  unfold put
  split
  · rename_i hsome
    unfold content? at hsome ⊢
    rw [lookup_map_of_eq]
    by_cases hq : q = p
    · obtain ⟨old, hold⟩ := Option.isSome_iff_exists.mp hsome
      simp [hq, hold]
    · simp [hq]
  · rename_i hnone
    unfold content? at hnone ⊢
    rw [List.lookup_append, List.lookup_cons]
    by_cases hq : q = p
    · have hmissing : t.files.lookup p = none := Option.not_isSome_iff_eq_none.mp hnone
      simp [hq, hmissing]
    · simp [hq, beq_false_of_ne hq]

theorem isDirectory_put (h : ∀ q, q.leadsTo p = true → q ≠ p → t.isDirectory q = true)
    (bytes : ByteArray) (q : Place) : (t.put p bytes).isDirectory q = t.isDirectory q := by
  rw [Bool.eq_iff_iff]
  unfold put
  split
  · rw [isDirectory_iff, isDirectory_iff]
    simp
  · constructor
    · intro hq
      rcases isDirectory_iff.mp hq with hroot | hd | ⟨file, hfile, hlead, hne⟩
      · exact isDirectory_iff.mpr (.inl hroot)
      · exact isDirectory_iff.mpr (.inr (.inl hd))
      · rcases List.mem_append.mp hfile with hold | hnew
        · exact isDirectory_iff.mpr (.inr (.inr ⟨file, hold, hlead, hne⟩))
        · obtain rfl := List.mem_singleton.mp hnew
          exact h q hlead hne
    · intro hq
      rcases isDirectory_iff.mp hq with hroot | hd | ⟨file, hfile, hlead, hne⟩
      · exact isDirectory_iff.mpr (.inl hroot)
      · exact isDirectory_iff.mpr (.inr (.inl hd))
      · exact isDirectory_iff.mpr (.inr (.inr ⟨file, List.mem_append_left _ hfile, hlead, hne⟩))

/-! ## Following a path -/

theorem requireDirectory_eq_ok : t.requireDirectory p = .ok () ↔ t.isDirectory p = true := by
  unfold requireDirectory
  split
  · simp [*]
  · split <;> simp [*]

theorem follow_cons_eq_ok {component : Text} {rest : List Text} :
    t.follow p (component :: rest) = .ok q ↔
      t.isDirectory p = true ∧ requireName component = .ok () ∧
        t.follow (p.descend component) rest = .ok q := by
  rw [← requireDirectory_eq_ok]
  simp only [follow, bind_eq_ok]
  constructor
  · rintro ⟨⟨⟩, hp, ⟨⟩, hname, hrest⟩
    exact ⟨hp, hname, hrest⟩
  · rintro ⟨hp, hname, hrest⟩
    exact ⟨(), hp, (), hname, hrest⟩

theorem follow_concat_eq_ok {front : List Text} {name : Text} :
    t.follow p (front ++ [name]) = .ok q ↔
      ∃ parent, t.follow p front = .ok parent ∧ t.isDirectory parent = true ∧
        requireName name = .ok () ∧ parent.descend name = q := by
  induction front generalizing p with
  | nil =>
    rw [List.nil_append, follow_cons_eq_ok]
    constructor
    · rintro ⟨hp, hname, hq⟩
      exact ⟨p, rfl, hp, hname, Except.ok.inj hq⟩
    · rintro ⟨parent, hparent, hdirectory, hname, rfl⟩
      cases hparent
      exact ⟨hdirectory, hname, rfl⟩
  | cons component front ih =>
    rw [List.cons_append, follow_cons_eq_ok, ih]
    constructor
    · rintro ⟨hp, hcomponent, parent, hfront, hrest⟩
      exact ⟨parent, follow_cons_eq_ok.mpr ⟨hp, hcomponent, hfront⟩, hrest⟩
    · rintro ⟨parent, hfront, hrest⟩
      obtain ⟨hp, hcomponent, hfront⟩ := follow_cons_eq_ok.mp hfront
      exact ⟨hp, hcomponent, parent, hfront, hrest⟩

/-- A path leads to the same place in trees with the same directories. -/
theorem follow_congr (h : ∀ q, u.isDirectory q = t.isDirectory q) {components : List Text}
    (hfollow : t.follow p components = .ok q) : u.follow p components = .ok q := by
  induction components generalizing p with
  | nil => exact hfollow
  | cons component rest ih =>
    obtain ⟨hp, hcomponent, hrest⟩ := follow_cons_eq_ok.mp hfollow
    exact follow_cons_eq_ok.mpr ⟨(h p).trans hp, hcomponent, ih hrest⟩

/-! ## Reading -/

theorem read_eq_ok {path : Text} {bytes : ByteArray} :
    t.read path = .ok bytes ↔
      ∃ origin p, start path = .ok origin ∧ t.follow origin (path.splitOn '/') = .ok p ∧
        t.isDirectory p = false ∧ t.content? p = some bytes := by
  simp only [read, bind_eq_ok]
  constructor
  · rintro ⟨origin, horigin, p, hp, h⟩
    refine ⟨origin, p, horigin, hp, ?_⟩
    split at h
    · cases h
    · rename_i hnot
      split at h
      · rename_i hcontent
        cases h
        exact ⟨by simpa using hnot, hcontent⟩
      · cases h
  · rintro ⟨origin, p, horigin, hp, hnot, hcontent⟩
    refine ⟨origin, horigin, p, hp, ?_⟩
    simp only [hnot, hcontent, Bool.false_eq_true, if_false]

section LastComponent

variable {directory : Text} (hdirectory : ∀ c ∈ directory.getLast?, c = '/')

include hdirectory

theorem splitOn_directory : ∃ front : List Text,
    ∀ name : Text, '/' ∉ name → (directory ++ name).splitOn '/' = front ++ [name] := by
  rcases List.eq_nil_or_concat directory with rfl | ⟨front, c, rfl⟩
  · exact ⟨[], fun name hname => List.splitOn_eq_singleton hname⟩
  · obtain rfl : c = '/' := hdirectory c (by simp)
    refine ⟨front.splitOn '/', ?_⟩
    intro name hname
    rw [List.concat_eq_append, List.append_assoc, List.singleton_append,
      List.splitOn_append_cons_self, List.splitOn_eq_singleton hname]

theorem read_name_eq_ok {name : Text} {bytes : ByteArray} (hname : '/' ∉ name)
    (h : t.read (directory ++ name) = .ok bytes) :
    ∃ origin front parent, start (directory ++ name) = .ok origin ∧
      (∀ last : Text, '/' ∉ last → (directory ++ last).splitOn '/' = front ++ [last]) ∧
      t.follow origin front = .ok parent ∧ t.isDirectory parent = true ∧
      t.isDirectory (parent.descend name) = false := by
  obtain ⟨origin, p, horigin, hp, hnot, -⟩ := read_eq_ok.mp h
  obtain ⟨front, hsplit⟩ := splitOn_directory hdirectory
  rw [hsplit name hname, follow_concat_eq_ok] at hp
  obtain ⟨parent, hfront, hparent, -, rfl⟩ := hp
  exact ⟨origin, front, parent, horigin, hsplit, hfront, hparent, hnot⟩

theorem isName_of_read {name : Text} {bytes : ByteArray} (hname : '/' ∉ name)
    (h : t.read (directory ++ name) = .ok bytes) : IsName name := by
  obtain ⟨-, -, parent, -, -, -, hparent, hnot⟩ := read_name_eq_ok hdirectory hname h
  have hdots := mt (isDirectory_descend_dots hparent) (Bool.eq_false_iff.mp hnot)
  rw [not_or, not_or] at hdots
  exact ⟨hname, hdots.1, hdots.2.1, hdots.2.2⟩

end LastComponent

/-! ## Creating -/

theorem creationPlace_eq_ok {path : Text} (h : t.creationPlace path = .ok p) :
    ∃ origin front name parent, start path = .ok origin ∧ path.splitOn '/' = front ++ [name] ∧
      t.follow origin front = .ok parent ∧ t.isDirectory parent = true ∧
      requireName name = .ok () ∧ p = parent.descend name ∧ t.isDirectory p = false := by
  simp only [creationPlace, bind_eq_ok] at h
  obtain ⟨origin, horigin, parent, hparent, ⟨⟩, hdirectory, h⟩ := h
  split at h
  · cases h
  · rename_i hplain
    rw [not_or, Nat.not_lt] at hplain
    obtain ⟨hlength, hnot⟩ := hplain
    simp only [bind_eq_ok, Except.ok.injEq] at h
    obtain ⟨⟨⟩, hname, rfl⟩ := h
    -- no component is missing at the end, so the last is the name
    have hsuffix := List.dropWhile_suffix (l := (path.splitOn '/').reverse) List.isEmpty
    have hall : (path.splitOn '/').reverse.length ≤
        ((path.splitOn '/').reverse.dropWhile List.isEmpty).length := by
      rw [List.length_reverse]
      rwa [List.length_reverse] at hlength
    have hwhole := hsuffix.eq_of_length (Nat.le_antisymm hsuffix.length_le hall)
    rw [hwhole, List.reverse_reverse] at hparent hname hnot ⊢
    have hsplit : path.splitOn '/' =
        (path.splitOn '/').dropLast ++ [(path.splitOn '/').getLast?.getD []] := by
      have hlast := List.getLast?_eq_some_getLast (List.splitOn_ne_nil '/' path)
      rw [hlast]
      exact (List.dropLast_concat_getLast _).symm
    exact ⟨origin, _, _, parent, horigin, hsplit, hparent, requireDirectory_eq_ok.mp hdirectory,
      hname, rfl, by simpa using hnot⟩

/-- What is on the way to a place where a file can be created is a directory. -/
theorem isDirectory_of_leadsTo_created {path : Text} (h : t.creationPlace path = .ok p) (q : Place)
    (hlead : q.leadsTo p = true) (hne : q ≠ p) : t.isDirectory q = true := by
  obtain ⟨origin, front, name, parent, -, -, -, hparent, -, rfl, hnot⟩ := creationPlace_eq_ok h
  have hplace := descend_of_not_isDirectory hparent hnot
  apply isDirectory_of_leadsTo _ hparent
  rw [hplace] at hlead hne
  obtain ⟨hanchor, hcomponents⟩ := Place.leadsTo_iff.mp hlead
  apply Place.leadsTo_iff.mpr
  refine ⟨hanchor, ?_⟩
  rcases List.prefix_concat_iff.mp hcomponents with hall | hfront
  · refine absurd ?_ hne
    rw [← hall, ← hanchor]
  · exact hfront

theorem read_put {path : Text} (h : t.creationPlace path = .ok p) (bytes : ByteArray) :
    (t.put p bytes).read path = .ok bytes := by
  have hkept := isDirectory_put (isDirectory_of_leadsTo_created h) bytes
  obtain ⟨origin, front, name, parent, horigin, hsplit, hfront, hparent, hname, rfl, hnot⟩ :=
    creationPlace_eq_ok h
  have hfollow : t.follow origin (path.splitOn '/') = .ok (parent.descend name) := by
    rw [hsplit]
    exact follow_concat_eq_ok.mpr ⟨parent, hfront, hparent, hname, rfl⟩
  have hcontent : (t.put (parent.descend name) bytes).content? (parent.descend name) =
      some bytes := by
    rw [content?_put, if_pos rfl]
  exact read_eq_ok.mpr ⟨origin, _, horigin, follow_congr hkept hfollow, (hkept _).trans hnot,
    hcontent⟩

/-! ## The parent directory as a file -/

theorem byteLength_append (s s' : Text) : byteLength (s ++ s') = byteLength s + byteLength s' := by
  induction s with
  | nil => exact (Nat.zero_add _).symm
  | cons c s ih =>
    have hcons : ∀ r : Text, byteLength (c :: r) = c.utf8Size + byteLength r := fun _ => rfl
    rw [List.cons_append, hcons, hcons, ih, Nat.add_assoc]

theorem start_of_append {path rest : Text} {origin : Place} (hne : path ≠ [])
    (h : start (path ++ rest) = .ok origin) : start path = .ok origin := by
  have hne' : path ++ rest ≠ [] := List.append_ne_nil_of_left_ne_nil hne rest
  have hhead : (path ++ rest).head? = path.head? := List.head?_append_of_ne_nil path hne
  unfold start at h ⊢
  rw [if_neg hne', hhead, byteLength_append] at h
  rw [if_neg hne]
  split at h
  · cases h
  · rw [if_neg (by omega)]
    exact h

/-- No file can be created in place of the parent of a directory. -/
theorem creationPlace_parent {directory tail : Text} {bytes : ByteArray}
    (hdirectory : ∀ c ∈ directory.getLast?, c = '/') (htail : '/' ∉ tail)
    (h : t.read (directory ++ ("..".toList ++ tail)) = .ok bytes) :
    t.creationPlace (directory ++ "..".toList) = .error .directory := by
  have hname : '/' ∉ "..".toList ++ tail := by simpa using htail
  obtain ⟨origin, front, parent, horigin, hsplit, hfront, hparent, -⟩ :=
    read_name_eq_ok hdirectory hname h
  have hstart : start (directory ++ "..".toList) = .ok origin := by
    rw [← List.append_assoc] at horigin
    exact start_of_append (by simp) horigin
  have hup : t.isDirectory (parent.descend "..".toList) = true :=
    isDirectory_descend_dots hparent (.inr (.inr rfl))
  have hall : ((front ++ ["..".toList]).reverse.dropWhile List.isEmpty).reverse =
      front ++ ["..".toList] := by
    rw [List.reverse_append, List.reverse_singleton, List.singleton_append,
      List.dropWhile_cons_of_neg (by decide), List.reverse_cons, List.reverse_reverse]
  unfold creationPlace
  simp only [hsplit "..".toList (by decide), hall, hstart, List.dropLast_concat,
    List.getLast?_concat, Option.getD_some, bind, Except.bind, hfront,
    requireDirectory_eq_ok.mpr hparent, hup, or_true, if_true]

/-! ## Texts -/

theorem decode_eq_ok {bytes : ByteArray} {text : Text} :
    decode bytes = .ok text ↔ bytes = (String.ofList text).toUTF8 := by
  unfold decode String.fromUTF8?
  constructor
  · intro h
    split at h
    · rename_i s hs
      split at hs
      · cases hs
        cases h
        rw [String.ofList_toList]
        rfl
      · cases hs
    · cases h
  · rintro rfl
    have hvalid : (String.ofList text).toUTF8.IsValidUTF8 := (String.ofList text).isValidUTF8
    rw [dif_pos hvalid]
    exact congrArg Except.ok String.toList_ofList

theorem readText_eq_ok {path text : Text} :
    t.readText path = .ok text ↔ t.read path = .ok (String.ofList text).toUTF8 := by
  simp only [readText, bind_eq_ok, decode_eq_ok]
  constructor
  · rintro ⟨_, hread, rfl⟩
    exact hread
  · intro hread
    exact ⟨_, hread, rfl⟩

theorem writeText_eq_ok {path text : Text} :
    t.writeText path text = .ok u ↔
      ∃ p, t.creationPlace path = .ok p ∧ t.put p (String.ofList text).toUTF8 = u := by
  simp only [writeText, bind_eq_ok, Except.ok.injEq]

end FileTree

end Asm6502.CommandLine
