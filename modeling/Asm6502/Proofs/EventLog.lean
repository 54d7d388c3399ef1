import Asm6502.Proofs.PassLogs

/-!
The log of a session tells what the session did. It is read here as it is shown, by the level of
each event and the text of its message.
-/

namespace Asm6502

/-! ## What a session shows -/

namespace Session

/-- What a session has told, each message with its level. -/
def notices (session : Session) : List (Level × Text) :=
  session.log.map fun e => (e.level, e.message)

/-- The messages of a level that open with some words. -/
def told (session : Session) (level : Level) (opening : Text) : List Text :=
  (session.notices.filter fun n => n.1 = level && opening.isPrefixOf n.2).map Prod.snd

theorem told_eq (session : Session) (k : Event.Kind) :
    session.told k.level k.opening = (Event.ofKind k session.log).map Event.message := by
  have hfilter : ∀ e : Event,
      (e.level = k.level && k.opening.isPrefixOf e.message) = decide (e.kind = k) := by
    intro e
    rw [Bool.eq_iff_iff, Bool.and_eq_true, decide_eq_true_iff, decide_eq_true_iff,
      List.isPrefixOf_iff_prefix, e.kind_eq_iff]
  unfold told notices Event.ofKind
  rw [List.filter_map, List.map_map]
  congr 1
  apply List.filter_congr
  intro e _
  exact hfilter e

theorem told_eq_nil {session : Session} {level : Level} (h : ∀ e ∈ session.log, e.level ≠ level)
    (opening : Text) : session.told level opening = [] := by
  unfold told notices
  rw [List.map_eq_nil_iff, List.filter_eq_nil_iff]
  intro n hn
  obtain ⟨e, he, rfl⟩ := List.mem_map.mp hn
  simp [h e he]

end Session

/-! ## The whole session -/

namespace Assembly

variable {config : Config} {lines : List SourceLine} {survey : Survey} {e : Emission}
  {stop : Option LineFault}

theorem mem_losses {event : Event} {image : Image} (h : event ∈ losses image) :
    0 < image.dropped ∧ event = .bytesLost image.dropped image.capacity := by
  unfold losses at h
  split at h
  · rename_i hlost
    exact ⟨hlost, List.mem_singleton.mp h⟩
  · exact absurd h List.not_mem_nil

theorem ofLines_of_survey_fault {fault : LineFault}
    (h : Survey.run lines config.start = (survey, some fault)) :
    ofLines config lines = ⟨survey.log.toList, .error fault⟩ := by
  rw [ofLines, h]

theorem log_of_survey (hsurvey : Survey.run lines config.start = (survey, none))
    (hemission : Emission.run config survey.labels lines = (e, stop)) :
    (ofLines config lines).log = survey.log.toList ++ ([.labelsCounted survey.labels.size] ++
      (e.log.toList ++ if stop.isNone then losses e.image else [])) := by
  cases stop with
  | none => simp [ofLines, hsurvey, emit, hemission]
  | some fault => simp [ofLines, hsurvey, emit, hemission]

/-- Behind a survey without fault, the emission `Logs` the lines up to the end or to the line at
fault. -/
theorem exists_reached (hsurvey : Survey.run lines config.start = (survey, none))
    (hemission : Emission.run config survey.labels lines = (e, stop)) :
    ∃ reached rest cells, lines = reached ++ rest ∧
      Emission.Logs (SourceLine.announcements ((Survey.initial config.start).sites reached))
        (Image.drops config.capacity cells) e.log.toList ∧
      (stop = none → rest = [] ∧
        Location.cells? survey.labels config.start.toNat lines = some cells) ∧
      ∀ fault, stop = some fault →
        ∃ before l, reached = before ++ [l] ∧ fault.line = l.number ∧
          (Emission.run config survey.labels before).2 = none ∧
          (Emission.run config survey.labels reached).2 = some fault := by
  cases stop with
  | none =>
    obtain ⟨cells, hcells, -⟩ := (Emission.run_eq_none hemission).image
    exact ⟨lines, [], cells, (List.append_nil lines).symm,
      Emission.logs_run hsurvey hemission hcells, fun _ => ⟨rfl, hcells⟩, by simp⟩
  | some fault =>
    have hfault : (Emission.run config survey.labels lines).2 = some fault := by rw [hemission]
    obtain ⟨before, l, after, t, rfl, hnumber, hbefore, hl⟩ := walk_fault.mp hfault
    have hline : Emission.line survey.labels l t =
        ((Emission.line survey.labels l t).1, some fault.fault) := by rw [← hl]
    have hstop : Emission.run config survey.labels (before ++ [l]) =
        ((Emission.line survey.labels l t).1, some ⟨l.number, fault.fault⟩) :=
      walk_of_fault hbefore hline []
    have hwhole : Emission.run config survey.labels (before ++ l :: after) =
        ((Emission.line survey.labels l t).1, some ⟨l.number, fault.fault⟩) :=
      walk_of_fault hbefore hline after
    -- the survey has passed the line at fault as well, so the line has its site
    obtain ⟨s, u, -, hpassed, -, -⟩ := Survey.run_split hsurvey
    obtain ⟨cells, hcells, -⟩ := (Emission.run_eq_none hbefore).image
    obtain rfl : e = (Emission.line survey.labels l t).1 :=
      congrArg Prod.fst (hemission.symm.trans hwhole)
    refine ⟨before ++ [l], after, cells, by simp,
      Emission.logs_fault hpassed hbefore hcells hline, by simp, ?_⟩
    rintro _ ⟨⟩
    refine ⟨before, l, rfl, hnumber, congrArg Prod.snd hbefore, ?_⟩
    rw [hstop, ← hnumber]

theorem ofKind_losses {k : Event.Kind} (hk : k ≠ .loss) (image : Image) (succeeded : Bool) :
    Event.ofKind k (if succeeded then losses image else []) = [] := by
  apply Event.ofKind_eq_nil
  rintro event hevent rfl
  split at hevent
  · rw [(mem_losses hevent).2] at hk
    exact hk rfl
  · cases hevent

section Kinds

variable {sites : List (Location × SourceLine)} {drops : List Event}
  (hsurvey : Survey.run lines config.start = (survey, none))
  (hemission : Emission.run config survey.labels lines = (e, stop))
  (hlogs : Emission.Logs (SourceLine.announcements sites) drops e.log.toList)

include hsurvey hemission

/-- What only the emission tells. -/
theorem ofKind_log {k : Event.Kind} (hk : k ∉ [Event.Kind.label, .count, .loss]) :
    Event.ofKind k (ofLines config lines).log = Event.ofKind k e.log.toList := by
  simp only [List.mem_cons, List.not_mem_nil, or_false, not_or] at hk
  have hlabels := (Survey.recorded_of_run hsurvey).ofKind_eq_nil hk.1
  have hcount : Event.ofKind k [.labelsCounted survey.labels.size] = [] := by
    apply Event.ofKind_eq_nil
    rintro event hevent rfl
    rw [List.mem_singleton.mp hevent] at hk
    exact hk.2.1 rfl
  rw [log_of_survey hsurvey hemission, Event.ofKind_append, Event.ofKind_append,
    Event.ofKind_append, hlabels, hcount, ofKind_losses hk.2.2, List.nil_append, List.nil_append,
    List.append_nil]

include hlogs

/-- The emission tells of no label, counts none and gives no warning. -/
theorem ofKind_log_of_survey {k : Event.Kind} (hk : k ∈ [Event.Kind.label, .count, .loss]) :
    Event.ofKind k (ofLines config lines).log =
      Event.ofKind k survey.log.toList ++ (Event.ofKind k [.labelsCounted survey.labels.size] ++
        Event.ofKind k (if stop.isNone then losses e.image else [])) := by
  have hnone : Event.ofKind k e.log.toList = [] := by
    rw [hlogs.announced k (by rintro rfl; exact absurd hk (by decide))]
    apply SourceLine.ofKind_announcements
    intro hother
    revert hk hother
    cases k <;> decide
  rw [log_of_survey hsurvey hemission, Event.ofKind_append, Event.ofKind_append,
    Event.ofKind_append, hnone, List.nil_append]

end Kinds

/-- The labels told are those of the survey's table, whether or not the survey came to its end. -/
theorem labels_log (hsurvey : Survey.run lines config.start = (survey, stop)) :
    Event.ofKind .label (ofLines config lines).log = survey.log.toList := by
  have hself : Event.ofKind .label survey.log.toList = survey.log.toList :=
    Event.ofKind_eq_self fun _ => (Survey.recorded_of_run hsurvey).kind_eq_label
  cases stop with
  | some fault => rw [ofLines_of_survey_fault hsurvey, hself]
  | none =>
    rcases hemission : Emission.run config survey.labels lines with ⟨e, stop⟩
    obtain ⟨reached, rest, cells, -, hlogs, -⟩ := exists_reached hsurvey hemission
    rw [ofKind_log_of_survey hsurvey hemission hlogs (by decide), hself,
      ofKind_losses (by decide), List.append_nil]
    exact List.append_nil _

theorem count_log (hsurvey : Survey.run lines config.start = (survey, none)) :
    Event.ofKind .count (ofLines config lines).log = [.labelsCounted survey.labels.size] := by
  rcases hemission : Emission.run config survey.labels lines with ⟨e, stop⟩
  obtain ⟨reached, rest, cells, -, hlogs, -⟩ := exists_reached hsurvey hemission
  rw [ofKind_log_of_survey hsurvey hemission hlogs (by decide),
    (Survey.recorded_of_run hsurvey).ofKind_eq_nil (by decide), ofKind_losses (by decide),
    List.append_nil]
  rfl

/-- A successful session warns at its end, if bytes were lost, and nowhere else. -/
theorem exists_log_of_ok (hsurvey : Survey.run lines config.start = (survey, none))
    (hemission : Emission.run config survey.labels lines = (e, none)) :
    ∃ front, (ofLines config lines).log = front ++ losses e.image ∧
      Event.ofKind .loss front = [] := by
  obtain ⟨reached, rest, cells, -, hlogs, -⟩ := exists_reached hsurvey hemission
  refine ⟨survey.log.toList ++ ([.labelsCounted survey.labels.size] ++ e.log.toList), ?_, ?_⟩
  · rw [log_of_survey hsurvey hemission, List.append_assoc, List.append_assoc]
    rfl
  · rw [Event.ofKind_append, Event.ofKind_append, hlogs.announced .loss (by decide),
      SourceLine.ofKind_announcements (by decide),
      (Survey.recorded_of_run hsurvey).ofKind_eq_nil (by decide)]
    rfl

theorem losses_log (hsurvey : Survey.run lines config.start = (survey, none))
    (hemission : Emission.run config survey.labels lines = (e, none)) :
    Event.ofKind .loss (ofLines config lines).log = losses e.image := by
  obtain ⟨front, hlog, hfront⟩ := exists_log_of_ok hsurvey hemission
  have hlosses : Event.ofKind .loss (losses e.image) = losses e.image := by
    apply Event.ofKind_eq_self
    intro event hevent
    rw [(mem_losses hevent).2]
    rfl
  rw [hlog, Event.ofKind_append, hfront, hlosses, List.nil_append]

theorem told_of_survey_fault {fault : LineFault}
    (hsurvey : Survey.run lines config.start = (survey, some fault)) :
    (ofLines config lines).told .debug "Pass 1 found ".toList = [] ∧
      (ofLines config lines).told .trace [] = [] ∧ (ofLines config lines).told .warn [] = [] := by
  have hkind : ∀ event ∈ (ofLines config lines).log, event.kind = .label := by
    rw [ofLines_of_survey_fault hsurvey]
    exact fun _ => (Survey.recorded_of_run hsurvey).kind_eq_label
  have hlevel : ∀ event ∈ (ofLines config lines).log, event.level = .debug := by
    intro event hevent
    rw [event.level_eq, hkind event hevent]
    rfl
  refine ⟨?_, ?_, ?_⟩
  · refine (Session.told_eq _ .count).trans ?_
    rw [Event.ofKind_eq_nil fun event hevent => by rw [hkind event hevent]; decide]
    rfl
  · exact Session.told_eq_nil (fun event hevent => by rw [hlevel event hevent]; decide) _
  · exact Session.told_eq_nil (fun event hevent => by rw [hlevel event hevent]; decide) _

section Reached

variable {reached : List SourceLine} {s : Survey} {drops : List Event}
  (hsurvey : Survey.run lines config.start = (survey, none))
  (hemission : Emission.run config survey.labels lines = (e, stop))
  (hreached : Survey.run reached config.start = (s, none))
  (hlogs : Emission.Logs
    (SourceLine.announcements ((Survey.initial config.start).sites reached)) drops e.log.toList)

include hsurvey hemission hlogs

theorem told_origins :
    (ofLines config lines).told .debug "Origin moved to $".toList =
      (((Survey.initial config.start).sites reached).filterMap fun site => site.2.origin?).map
        (fun address => "Origin moved to $".toList ++ Text.hex 4 address.toNat) := by
  refine (Session.told_eq _ .origin).trans ?_
  rw [ofKind_log hsurvey hemission (by decide), hlogs.announced _ (by decide),
    SourceLine.origins_announced, List.map_map]
  rfl

include hreached

theorem told_statements :
    List.Forall₂ (fun site text => ∃ statement, site.2.statement = .ok (some statement) ∧
        text = '$' :: Text.hex 4 site.1 ++ ": ".toList ++ statement.text)
      ((Survey.initial config.start).sites reached)
      ((ofLines config lines).told .trace "$".toList) := by
  have htold : (ofLines config lines).told .trace "$".toList = (Event.ofKind .statement
      (SourceLine.announcements ((Survey.initial config.start).sites reached))).map
        Event.message := by
    refine (Session.told_eq _ .statement).trans ?_
    rw [ofKind_log hsurvey hemission (by decide), hlogs.announced _ (by decide)]
  rw [htold, List.forall₂_map_right_iff]
  refine (SourceLine.statements_announced fun _ => Survey.statement_of_mem_sites hreached).imp ?_
  rintro site _ ⟨statement, hstatement, rfl⟩
  exact ⟨statement, hstatement, rfl⟩

end Reached

section Succeeded

variable (hsurvey : Survey.run lines config.start = (survey, none))
  (hemission : Emission.run config survey.labels lines = (e, none))

include hsurvey hemission

theorem told_drops :
    (∃ cells, Location.cells? survey.labels config.start.toNat lines = some cells ∧
      (ofLines config lines).told .trace "Dropped write of 0x".toList =
        (cells.filter fun cell => config.capacity ≤ cell.2).map (fun cell =>
          "Dropped write of 0x".toList ++ Text.hexLower 2 cell.1.toNat ++ " to 0x".toList ++
            Text.hexLower 4 cell.2)) ∧
    ((ofLines config lines).told .trace "Dropped write of 0x".toList).length = e.image.dropped := by
  obtain ⟨reached, rest, cells, -, hlogs, hend, -⟩ := exists_reached hsurvey hemission
  obtain ⟨-, hcells⟩ := hend rfl
  obtain ⟨cells', hcells', himage⟩ := (Emission.run_eq_none hemission).image
  obtain rfl : cells = cells' := Option.some.inj (hcells.symm.trans hcells')
  have hdrops : (ofLines config lines).told .trace "Dropped write of 0x".toList =
      (Image.drops config.capacity cells).map Event.message := by
    refine (Session.told_eq _ .drop).trans ?_
    rw [ofKind_log hsurvey hemission (by decide), hlogs.dropped]
  refine ⟨⟨cells, hcells, ?_⟩, ?_⟩
  · rw [hdrops, Image.drops, List.map_map]
    rfl
  · rw [hdrops, himage, Image.dropped_writeAll, Image.capacity_blank, Image.drops,
      List.length_map, List.length_map, ← List.countP_eq_length_filter]
    exact (Nat.zero_add _).symm

theorem warned_iff :
    (ofLines config lines).told .warn [] ≠ [] ↔ 0 < e.image.dropped := by
  have htold : (ofLines config lines).told .warn [] = (losses e.image).map Event.message := by
    refine (Session.told_eq _ .loss).trans ?_
    rw [losses_log hsurvey hemission]
  rw [htold, losses]
  split
  · simp [*]
  · simp [*]

theorem warning_last {before after : List (Level × Text)} {text : Text}
    (hsplit : (ofLines config lines).notices = before ++ (.warn, text) :: after) :
    after = [] ∧ text = (Event.bytesLost e.image.dropped e.image.capacity).message := by
  obtain ⟨front, hlog, hfront⟩ := exists_log_of_ok hsurvey hemission
  rw [Session.notices, hlog, List.map_append] at hsplit
  generalize hnotices : front.map (fun e => (e.level, e.message)) = notices at hsplit
  have hnot : (Level.warn, text) ∉ notices := by
    rw [← hnotices]
    intro hmem
    obtain ⟨event, hevent, hwarn⟩ := List.mem_map.mp hmem
    have hloss := Event.mem_ofKind.mpr
      ⟨hevent, event.kind_eq_loss (congrArg Prod.fst hwarn)⟩
    rw [hfront] at hloss
    cases hloss
  have hmem : (Level.warn, text) ∈ (losses e.image).map fun e => (e.level, e.message) := by
    have hmem : (Level.warn, text) ∈ before ++ (.warn, text) :: after := by simp
    rw [← hsplit] at hmem
    exact (List.mem_append.mp hmem).resolve_left hnot
  obtain ⟨event, hevent, htext⟩ := List.mem_map.mp hmem
  obtain ⟨hpositive, rfl⟩ := mem_losses hevent
  refine ⟨?_, (congrArg Prod.snd htext).symm⟩
  rw [losses, if_pos hpositive, List.map_singleton] at hsplit
  rcases List.eq_nil_or_concat after with rfl | ⟨after, last, rfl⟩
  · rfl
  · -- a notice behind it would put the warning in front
    rw [List.concat_eq_append, ← List.cons_append, ← List.append_assoc] at hsplit
    have hin : notices = before ++ (.warn, text) :: after := (List.append_inj' hsplit rfl).1
    exact absurd (by rw [hin]; simp) hnot

end Succeeded

end Assembly

/-- The log of a session is true, as it is shown (`Session.told`). It names the labels of the
survey's table in their order. A survey at fault leaves no count of labels, no detail and no
warning. Behind a survey without fault the labels are counted, and each line with an operation, up
to the end or to the line at fault, is told once, at the location at which the survey met it, and
so are the moves of the origin among them. A successful session tells of each byte that lies beyond
the image, and at its very end warns of their number if there is any. -/
theorem log_tells_session (config : Config) (lines : List SourceLine) (session : Session)
    (survey : Survey) (stop : Option LineFault) (hsession : Assembly.ofLines config lines = session)
    (hsurvey : Survey.run lines config.start = (survey, stop)) :
    session.told .debug "Label ".toList = survey.labels.entries.map (fun l =>
      "Label ".toList ++ l.name ++ " = $".toList ++ Text.hex 4 l.address.toNat) ∧
    (stop ≠ none → session.told .debug "Pass 1 found ".toList = [] ∧
      session.told .trace [] = [] ∧ session.told .warn [] = []) ∧
    (stop = none →
      session.told .debug "Pass 1 found ".toList =
        ["Pass 1 found ".toList ++ Text.decimal survey.labels.entries.length ++
          " labels".toList] ∧
      ∃ reached rest, lines = reached ++ rest ∧
        List.Forall₂ (fun site text => ∃ statement,
            site.2.statement = .ok (some statement) ∧
            text = '$' :: Text.hex 4 site.1 ++ ": ".toList ++ statement.text)
          ((Survey.initial config.start).sites reached) (session.told .trace "$".toList) ∧
        session.told .debug "Origin moved to $".toList =
          (((Survey.initial config.start).sites reached).filterMap fun site => site.2.origin?).map
            (fun address => "Origin moved to $".toList ++ Text.hex 4 address.toNat) ∧
        (∀ a, session.result = .ok a → rest = []) ∧
        ∀ fault, session.result = .error fault → ∃ before l,
          reached = before ++ [l] ∧ fault.line = l.number ∧
          (Emission.run config survey.labels before).2 = none ∧
          (Emission.run config survey.labels reached).2 = some fault) ∧
    ∀ a, session.result = .ok a →
      a.labels = survey.labels ∧
      (∃ cells, Location.cells? a.labels config.start.toNat lines = some cells ∧
        session.told .trace "Dropped write of 0x".toList =
          (cells.filter fun cell => config.capacity ≤ cell.2).map (fun cell =>
            "Dropped write of 0x".toList ++ Text.hexLower 2 cell.1.toNat ++ " to 0x".toList ++
              Text.hexLower 4 cell.2)) ∧
      (session.told .trace "Dropped write of 0x".toList).length = a.image.dropped ∧
      (session.told .warn [] ≠ [] ↔ 0 < a.image.dropped) ∧
      ∀ before text after, session.notices = before ++ (.warn, text) :: after →
        after = [] ∧
        text = Text.decimal a.image.dropped ++ " bytes were outside of the ".toList ++
          Text.decimal config.capacity ++ " byte image and were dropped".toList := by
  subst hsession
  refine ⟨?_, ?_, ?_, ?_⟩
  · refine (Session.told_eq _ .label).trans ?_
    rw [Assembly.labels_log hsurvey, Survey.recorded_of_run hsurvey, List.map_map]
    rfl
  · intro hstop
    obtain ⟨fault, rfl⟩ := Option.ne_none_iff_exists'.mp hstop
    exact Assembly.told_of_survey_fault hsurvey
  · rintro rfl
    refine ⟨?_, ?_⟩
    · refine (Session.told_eq _ .count).trans ?_
      rw [Assembly.count_log hsurvey]
      rfl
    rcases hemission : Emission.run config survey.labels lines with ⟨e, stop⟩
    obtain ⟨reached, rest, cells, hlines, hlogs, hend, hfault⟩ :=
      Assembly.exists_reached hsurvey hemission
    obtain ⟨s, hreached, -⟩ := walk_append_eq_none.mp (hlines ▸ hsurvey)
    refine ⟨reached, rest, hlines, Assembly.told_statements hsurvey hemission hreached hlogs,
      Assembly.told_origins hsurvey hemission hlogs, ?_, ?_⟩
    · intro a ha
      obtain ⟨survey', e', hsurvey', hemission', -⟩ := Assembly.ofLines_eq_ok.mp ha
      obtain rfl : survey = survey' := congrArg Prod.fst (hsurvey.symm.trans hsurvey')
      exact (hend (congrArg Prod.snd (hemission.symm.trans hemission'))).1
    · intro fault herror
      apply hfault
      rcases Assembly.ofLines_eq_error.mp herror with hsurveyed | ⟨survey', hsurvey', hstop⟩
      · rw [hsurvey] at hsurveyed
        cases hsurveyed
      · obtain rfl : survey = survey' := congrArg Prod.fst (hsurvey.symm.trans hsurvey')
        rwa [hemission] at hstop
  · intro a ha
    obtain ⟨survey', e, hsurvey', hemission, rfl⟩ := Assembly.ofLines_eq_ok.mp ha
    obtain ⟨rfl, rfl⟩ := Prod.mk.inj (hsurvey.symm.trans hsurvey')
    obtain ⟨hdrops, hcount⟩ := Assembly.told_drops hsurvey hemission
    refine ⟨rfl, hdrops, hcount, Assembly.warned_iff hsurvey hemission, ?_⟩
    intro before text after hsplit
    rw [← Emission.capacity_of_run hemission]
    exact Assembly.warning_last hsurvey hemission hsplit

/-- Two labels, and a byte beyond an image of three. -/
theorem log_tells_session_of_loss :
    ∃ a session, Assembly.ofSource ⟨3, 0⟩ "a: lda #1\n.byte 1,2\nb:".toList = session ∧
      session.result = .ok a ∧ a.image.dropped = 1 ∧
      session.told .debug "Label ".toList = ["Label a = $0000".toList, "Label b = $0004".toList] ∧
      (session.told .trace "Dropped write of 0x".toList).length = 1 ∧
      session.told .warn [] ≠ [] := by
  have hresult : (Assembly.ofSource ⟨3, 0⟩ "a: lda #1\n.byte 1,2\nb:".toList).result =
      .ok ⟨⟨#[0xA9, 1, 1], 1⟩, ⟨[⟨['a'], 0, 1⟩, ⟨['b'], 4, 3⟩]⟩, 4⟩ := by decide
  obtain ⟨hlabels, -, -, hok⟩ := log_tells_session ⟨3, 0⟩
    (SourceLine.listing "a: lda #1\n.byte 1,2\nb:".toList) _ _ _ rfl rfl
  obtain ⟨-, -, hcount, hwarned, -⟩ := hok _ hresult
  exact ⟨_, _, rfl, hresult, rfl, hlabels.trans (by decide), hcount, hwarned.mpr (by decide)⟩

end Asm6502
