import SparkPulse.Streams.Logs

/-!
# What a stream shows

In runs that nothing disturbs, a stream has sent the lines that have ended, of what was read, each
once and in order.
-/

namespace SparkPulse.Streams

/-! ## What a step leaves -/

namespace Stream

variable {s t : Stream}

@[simp] theorem bytes_send (lines : List Text) : (s.send lines).bytes = s.bytes := rfl

@[simp] theorem shown_send (lines : List Text) : (s.send lines).shown = s.shown ++ lines := by
  rw [shown, send, List.filterMap_append, List.filterMap_map]
  exact congrArg (s.shown ++ ·) List.filterMap_some

@[simp] theorem shown_finish : s.finish.shown = s.shown := by
  rw [shown, finish, List.filterMap_append]
  exact List.append_nil _

@[simp] theorem shown_fail (message : String) : (s.fail message).shown = s.shown := by
  rw [fail, shown_finish, shown, List.filterMap_append]
  exact List.append_nil _

/-- A stream stays faithful while what was read and what was sent are the same. -/
theorem Faithful.of_eq (h : s.Faithful) (horigin : t.origin = s.origin) (hshown : t.shown = s.shown)
    (htaken : t.bytes.take t.cursor = s.bytes.take s.cursor) : t.Faithful := by
  rw [Faithful, horigin, hshown, htaken]
  exact h

instance (s : Stream) : Decidable s.Faithful := inferInstanceAs (Decidable (_ = _))

/-- What was read ends with a line. -/
def Rests (s : Stream) : Prop :=
  Lines.Ended s.origin.breaks.byte (s.bytes.take s.cursor)

/-- What holds before a generator goes on. -/
def Ready (s : Stream) : Phase → Prop
  | .lookup => s.origin = .file ∧ s.cursor = 0 ∧ s.pos = 0 ∧ s.seen = 0
  | .opening => s.origin = .file ∧ s.cursor = 0 ∧ s.pos = 0
  | .reading _ => s.origin = .file ∧ s.pending = Lines.rest fileEnd (s.bytes.take s.cursor)
  | .measuring => s.origin = .file ∧ s.Rests
  | .polling | .checking => s.origin = .file ∧ s.pos = s.cursor ∧ s.Rests
  | .fetching | .asking => s.origin = .container ∧ s.seen = s.shown.length ∧ s.Rests
  | .done => True

/-- The invariant of a stream. -/
structure Sound (s : Stream) : Prop where
  faithful : s.Faithful
  le : s.cursor ≤ s.bytes.length
  ready : s.Ready s.phase

theorem rests_of_zero (h : s.cursor = 0) : s.Rests := by
  rw [Rests, h, List.take_zero]
  exact Lines.ended_iff.mpr (.inl rfl)

/-- What a generator relies on is kept while the log grows. -/
theorem Ready.of_taken {phase : Phase} {log : Option Bytes} (h : s.Ready phase)
    (htaken : (log.getD []).take s.cursor = s.bytes.take s.cursor) :
    ({ s with log := log } : Stream).Ready phase := by
  have hrests : ({ s with log := log } : Stream).Rests ↔ s.Rests := by
    rw [Rests, Rests]
    exact Iff.of_eq (congrArg _ htaken)
  rcases phase with _ | _ | size | _ | _ | _ | _ | _ | _
  · exact h
  · exact h
  · exact ⟨h.1, h.2.trans (congrArg _ htaken.symm)⟩
  · exact ⟨h.1, hrests.mpr h.2⟩
  · exact ⟨h.1, h.2.1, hrests.mpr h.2.2⟩
  · exact ⟨h.1, h.2.1, hrests.mpr h.2.2⟩
  · exact ⟨h.1, h.2.1, hrests.mpr h.2.2⟩
  · exact ⟨h.1, h.2.1, hrests.mpr h.2.2⟩
  · trivial

/-! ## One step -/

theorem sound_append (h : s.Sound) (bytes : Bytes) :
    ({ s with log := some (s.bytes ++ bytes) } : Stream).Sound := by
  have htaken : (s.bytes ++ bytes).take s.cursor = s.bytes.take s.cursor :=
    List.take_append_of_le_length h.le
  refine ⟨h.faithful.of_eq rfl rfl htaken, ?_, h.ready.of_taken htaken⟩
  exact h.le.trans (List.length_append ▸ Nat.le_add_right ..)

theorem sound_finish (h : s.Faithful) (hle : s.cursor ≤ s.bytes.length) : s.finish.Sound :=
  ⟨h.of_eq rfl shown_finish rfl, hle, trivial⟩

theorem sound_fail (h : s.Faithful) (hle : s.cursor ≤ s.bytes.length) (message : String) :
    (s.fail message).Sound :=
  ⟨h.of_eq rfl (shown_fail message) rfl, hle, trivial⟩

theorem sound_begin (h : s.Sound) (hready : s.Ready .lookup) (dep : Option Deployment) :
    (s.begin dep).Sound := by
  obtain ⟨horigin, hcursor, hpos, hseen⟩ := hready
  rcases dep with _ | dep
  · exact sound_fail h.faithful h.le _
  · have hnothing : s.shown = [] := by
      have hfaithful := h.faithful
      rw [Faithful, hcursor, List.take_zero] at hfaithful
      exact hfaithful
    rw [begin]
    split_ifs
    · refine ⟨?_, h.le, rfl, ?_, rests_of_zero hcursor⟩
      · change s.shown = _
        rw [hnothing, hcursor, List.take_zero]
        rfl
      · change s.seen = s.shown.length
        rw [hnothing, hseen]
        rfl
    · exact sound_fail h.faithful h.le _
    · exact ⟨h.faithful.of_eq rfl rfl rfl, h.le, horigin, hcursor, hpos⟩

theorem shown_status (s : Stream) (status : Option Text) :
    ({ s with lastStatus := status, frames := s.frames ++ [.status status] } : Stream).shown =
      s.shown := by
  rw [shown, List.filterMap_append]
  exact List.append_nil _

/-- A status is sent beside the lines. -/
theorem sound_check {phase : Phase} (h : s.Sound)
    (hready : ∀ t : Stream, t.origin = s.origin → t.pos = s.pos → t.seen = s.seen →
      t.shown = s.shown → t.bytes.take t.cursor = s.bytes.take s.cursor → t.cursor = s.cursor →
        t.Ready phase) (dep : Option Deployment) : (s.check phase dep).Sound := by
  rcases dep with _ | dep
  · exact sound_finish h.faithful h.le
  · rw [check]
    split_ifs
    · exact sound_finish h.faithful h.le
    · exact sound_finish (h.faithful.of_eq rfl (shown_status s _) rfl) h.le
    · exact ⟨h.faithful.of_eq rfl rfl rfl, h.le, hready _ rfl rfl rfl rfl rfl rfl⟩
    · exact ⟨h.faithful.of_eq rfl (shown_status s _) rfl, h.le,
        hready _ rfl rfl rfl (shown_status s _) rfl rfl⟩

theorem sound_seek (h : s.Sound) (horigin : s.origin = .file) (hpos : s.pos = s.cursor)
    (hrests : s.Rests) (size : Option ℕ) : (s.seek size).Sound := by
  refine ⟨?_, hpos.trans_le h.le, horigin, ?_⟩
  · refine h.faithful.of_eq rfl rfl ?_
    change s.bytes.take s.pos = _
    rw [hpos]
  · change [] = Lines.rest fileEnd (s.bytes.take s.pos)
    rw [Rests, horigin] at hrests
    rw [hpos]
    exact (Lines.rest_eq_nil_iff.mpr hrests).symm

theorem sound_look (h : s.Sound) (hguard : s.phase = .measuring → s.bytes.length = s.cursor)
    (hstep : s.look = some t) : t.Sound := by
  have hready := h.ready
  rw [look] at hstep
  split at hstep
  next hphase =>
    rw [hphase] at hready
    obtain ⟨horigin, hcursor, hpos⟩ := hready
    have hrests := rests_of_zero hcursor
    split at hstep
    · obtain rfl := Option.some.inj hstep
      exact ⟨h.faithful.of_eq rfl rfl rfl, h.le, horigin, hpos.trans hcursor.symm, hrests⟩
    · obtain rfl := Option.some.inj hstep
      exact sound_seek h horigin (hpos.trans hcursor.symm) hrests none
  next hphase =>
    rw [hphase] at hready
    obtain rfl := Option.some.inj hstep
    exact ⟨h.faithful.of_eq rfl rfl rfl, h.le, hready.1, hguard hphase, hready.2⟩
  next hphase =>
    rw [hphase] at hready
    obtain ⟨horigin, hpos, hrests⟩ := hready
    split_ifs at hstep
    · obtain rfl := Option.some.inj hstep
      exact sound_seek h horigin hpos hrests _
    · obtain rfl := Option.some.inj hstep
      exact ⟨h.faithful.of_eq rfl rfl rfl, h.le, horigin, hpos, hrests⟩
  next => cases hstep

/-- Some bytes are read. -/
theorem sound_take (h : s.Sound) {size : Option ℕ} (hphase : s.phase = .reading size)
    {bytes : Bytes} (hbytes : bytes <+: s.bytes.drop s.cursor) : (s.take bytes).Sound := by
  have hready := h.ready
  rw [hphase] at hready
  obtain ⟨horigin, hpending⟩ := hready
  obtain ⟨later, hlater⟩ := hbytes
  have hend : s.cursor + bytes.length ≤ s.bytes.length := by
    have hlength := congrArg List.length hlater
    rw [List.length_append, List.length_drop] at hlength
    have hle := h.le
    omega
  have htaken : s.bytes.take (s.cursor + bytes.length) = s.bytes.take s.cursor ++ bytes := by
    rw [List.take_add, ← hlater, List.take_left]
  -- the lines that had ended, and what was read since
  have hsplit : s.bytes.take s.cursor ++ bytes =
      Lines.ended fileEnd (s.bytes.take s.cursor) ++ (s.pending ++ bytes) := by
    rw [← List.append_assoc, hpending, Lines.ended_append_rest]
  have hended := Lines.ended_ended fileEnd (s.bytes.take s.cursor)
  have hpart := Lines.ended_append (t := s.pending ++ bytes) hended
  refine ⟨?_, hend, ?_⟩
  · have hfaithful := h.faithful
    rw [Faithful, horigin] at hfaithful
    change (s.send _).shown = (s.origin.breaks).lines (Lines.ended s.origin.breaks.byte
      (s.bytes.take (s.cursor + bytes.length)))
    rw [shown_send, hfaithful, horigin, htaken, hsplit]
    change _ = Origin.file.breaks.lines (Lines.ended fileEnd _)
    rw [hpart.1, Lines.Breaks.lines_append _ hended]
    rfl
  · change Ready _ s.phase
    rw [hphase]
    refine ⟨horigin, ?_⟩
    change Lines.rest fileEnd (s.pending ++ bytes) =
      Lines.rest fileEnd (s.bytes.take (s.cursor + bytes.length))
    rw [htaken, hsplit, hpart.2]

/-- A file that was read to its end is closed. -/
theorem sound_close (h : s.Sound) {size : Option ℕ} (hphase : s.phase = .reading size)
    (hpending : s.pending = []) (hsize : ∀ k ∈ size, s.cursor = k) : (s.close size).Sound := by
  have hready := h.ready
  rw [hphase] at hready
  obtain ⟨horigin, hrest⟩ := hready
  have hrests : s.Rests := by
    rw [Rests, horigin]
    exact Lines.rest_eq_nil_iff.mp (hrest.symm.trans hpending)
  rcases size with _ | size
  · exact ⟨h.faithful.of_eq rfl rfl rfl, h.le, horigin, hrests⟩
  · exact ⟨h.faithful.of_eq rfl rfl rfl, h.le, horigin, (hsize size rfl).symm, hrests⟩

theorem tail_of_le {n : ℕ} {log : Bytes} (h : countLines log ≤ n) : tail n log = log := by
  rw [tail, Nat.sub_eq_zero_of_le h, Function.iterate_zero_apply]

/-- What is fetched as a log are its last lines. -/
theorem liveOr_eq_log {kept container text : Text} {live : Fetched}
    (h : liveOr kept container live = .log text) : live = .log text := by
  rw [liveOr] at h
  split_ifs at h
  exact h

theorem getLogs_eq_log {found : Option Found} {reply : Reply} {log : Bytes} {lines : ℕ}
    {text : Text} (h : getLogs found reply log lines = .log text) :
    text = Utf8.decode (tail lines log) := by
  unfold getLogs at h
  split at h
  · cases h
  split at h
  · cases h
  split at h
  · cases h
  split at h
  · split_ifs at h
  · exact nomatch liveOr_eq_log h
  · exact nomatch liveOr_eq_log h
  · exact (Fetched.log.inj (liveOr_eq_log h)).symm

theorem sound_other (h : s.Sound) (hphase : s.phase = .fetching) {text : Text}
    (hlines : (Lines.lines lineBreak text).length ≤ s.seen) :
    (s.fetched (.other text)).Sound := by
  have hready := h.ready
  rw [hphase] at hready
  obtain ⟨horigin, hseen, hrests⟩ := hready
  have hshown : (s.fetched (.other text)).shown = s.shown := by
    change (s.send _).shown = _
    rw [shown_send, Fetched.text, List.drop_eq_nil_of_le hlines, List.append_nil]
  refine ⟨h.faithful.of_eq rfl hshown rfl, h.le, horigin, ?_, hrests⟩
  rw [hshown, ← hseen]
  exact max_eq_left hlines

/-- **The native generator.** A log that is fetched from its beginning has the lines that were sent,
and then those that were not. -/
theorem sound_log (h : s.Sound) (hphase : s.phase = .fetching) (hcount : countLines s.bytes ≤ 1000)
    (hended : Lines.Ended logEnd s.bytes) :
    (s.fetched (.log (Utf8.decode (tail 1000 s.bytes)))).Sound := by
  have hready := h.ready
  have hfaithful := h.faithful
  rw [hphase] at hready
  obtain ⟨horigin, hseen, hrests⟩ := hready
  rw [Rests, horigin] at hrests
  rw [Faithful, horigin] at hfaithful
  have hsent : s.shown = Origin.container.breaks.lines (s.bytes.take s.cursor) := by
    rw [hfaithful, Lines.ended_eq_self hrests]
  have hall : Origin.container.breaks.lines s.bytes =
      s.shown ++ Origin.container.breaks.lines (s.bytes.drop s.cursor) := by
    rw [hsent, ← Lines.Breaks.lines_append _ hrests, List.take_append_drop]
  have hlines : Lines.lines lineBreak (Utf8.decode (tail 1000 s.bytes)) =
      s.shown ++ Origin.container.breaks.lines (s.bytes.drop s.cursor) := by
    rw [tail_of_le hcount]
    exact hall
  have hshown : (s.fetched (.log (Utf8.decode (tail 1000 s.bytes)))).shown =
      Origin.container.breaks.lines s.bytes := by
    change (s.send _).shown = _
    rw [shown_send, Fetched.text, hlines, hseen, List.drop_left, hall]
  refine ⟨?_, le_rfl, horigin, ?_, ?_⟩
  · rw [Faithful, hshown]
    change _ = s.origin.breaks.lines (Lines.ended s.origin.breaks.byte
      (s.bytes.take s.bytes.length))
    rw [horigin, List.take_length]
    exact congrArg _ (Lines.ended_eq_self hended).symm
  · rw [hshown, hall]
    change max s.seen _ = _
    rw [Fetched.text, hlines, hseen, List.length_append]
    exact max_eq_right (Nat.le_add_right ..)
  · change Lines.Ended s.origin.breaks.byte (s.bytes.take s.bytes.length)
    rw [horigin, List.take_length]
    exact hended

theorem sound_check_file {s : Stream} (h : s.Sound) (hphase : s.phase = .checking)
    (dep : Option Deployment) : (s.check .polling dep).Sound := by
  have hready := h.ready
  rw [hphase] at hready
  obtain ⟨horigin, hpos, hrests⟩ := hready
  refine sound_check h (fun t ho hp _ _ htaken hcursor ↦ ?_) dep
  refine And.intro (ho.trans horigin) (And.intro ?_ ?_)
  · rw [hp, hcursor, hpos]
  · rw [Rests, ho, htaken]
    exact hrests

theorem sound_check_native {s : Stream} (h : s.Sound) (hphase : s.phase = .asking)
    (dep : Option Deployment) : (s.check .fetching dep).Sound := by
  have hready := h.ready
  rw [hphase] at hready
  obtain ⟨horigin, hseen, hrests⟩ := hready
  refine sound_check h (fun t ho _ hs hshown htaken _ ↦ ?_) dep
  refine And.intro (ho.trans horigin) (And.intro ?_ ?_)
  · rw [hs, hshown, hseen]
  · rw [Rests, ho, htaken]
    exact hrests

end Stream

/-! ## Runs -/

/-- **The step lemma.** Where nothing disturbs a step, a stream stays sound. -/
theorem sound_next : system.Preserves undisturbed Stream.Sound := by
  intro s a t h hguard hstep
  change s.next a = some t at hstep
  rcases a with bytes | dep | _ | n | ⟨found, reply⟩
  · obtain rfl := Option.some.inj hstep
    exact Stream.sound_append h bytes
  · rw [Stream.next] at hstep
    split at hstep
    next hphase =>
      obtain rfl := Option.some.inj hstep
      have hready := h.ready
      rw [hphase] at hready
      exact Stream.sound_begin h hready dep
    next hphase =>
      obtain rfl := Option.some.inj hstep
      exact Stream.sound_check_file h hphase dep
    next hphase =>
      obtain rfl := Option.some.inj hstep
      exact Stream.sound_check_native h hphase dep
    next => cases hstep
  · refine Stream.sound_look h (fun hphase ↦ ?_) hstep
    rw [undisturbed, hphase] at hguard
    exact of_decide_eq_true hguard
  · rw [Stream.next] at hstep
    split at hstep
    next size hphase =>
      rw [undisturbed, hphase] at hguard
      have hread := of_decide_eq_true hguard
      split_ifs at hstep with hchunk hpending
      · obtain rfl := Option.some.inj hstep
        exact Stream.sound_take h hphase (List.take_prefix ..)
      · exact absurd (hread.resolve_left hchunk).1 hpending
      · obtain rfl := Option.some.inj hstep
        obtain ⟨hnil, hsize⟩ := hread.resolve_left hchunk
        refine Stream.sound_close h hphase hnil fun k hk ↦ ?_
        exact of_decide_eq_true ((Option.all_eq_true _ _).mp hsize k hk)
    next => cases hstep
  · rw [Stream.next] at hstep
    split at hstep
    next hphase =>
      obtain rfl := Option.some.inj hstep
      rw [undisturbed, hphase] at hguard
      change s.quietly (getLogs found reply s.bytes 1000) = true at hguard
      rcases hlogs : getLogs found reply s.bytes 1000 with text | text
      · rw [hlogs] at hguard
        obtain ⟨hcount, hended⟩ := of_decide_eq_true hguard
        rw [Stream.getLogs_eq_log hlogs]
        exact Stream.sound_log h hphase hcount hended
      · rw [hlogs] at hguard
        exact Stream.sound_other h hphase (of_decide_eq_true hguard)
    next => cases hstep

theorem sound_init {s : Stream} (h : system.init s) : s.Sound := by
  obtain ⟨log, rfl⟩ := h
  exact ⟨rfl, Nat.zero_le _, rfl, rfl, rfl, rfl⟩

/-- **Streams of logs.** In a run that nothing disturbs, a stream has sent the lines that have
ended, of what was read, each once and in order. -/
theorem faithful_of_undisturbed {s : Stream} (h : system.Reachable undisturbed s) : s.Faithful :=
  (h.invariant (fun _ ↦ sound_init) sound_next).faithful

/-! ## Two lines of a file -/

instance (s : Stream) (a : Action) : Decidable (undisturbed s a) :=
  inferInstanceAs (Decidable (_ = _))

private def toFile : Action := .lookup (some ⟨[], ['l'], none⟩)

/-- A file of one line. -/
private def oneLine : Stream := { log := some [97, 10] }

/-- The line is sent, and a second one after it was appended. -/
theorem twoLines_faithful : ∃ s, system.runUnder undisturbed oneLine
    [toFile, .stat, .read 7, .read 7, .stat, .append [98, 10], .stat, .read 7] = some s ∧
      s.shown = [['a'], ['b']] ∧ s.Faithful := by
  have hrun : (system.runUnder undisturbed oneLine
      [toFile, .stat, .read 7, .read 7, .stat, .append [98, 10], .stat, .read 7]).map
        Stream.shown = some [['a'], ['b']] := by decide +kernel
  obtain ⟨s, hs, hshown⟩ := Option.map_eq_some_iff.mp hrun
  exact ⟨s, hs, hshown, faithful_of_undisturbed
    ⟨_, ⟨_, rfl⟩, Transition.System.steps_of_runUnder hs⟩⟩

/-- A line that is appended before the size is sampled is not sent. -/
theorem lineBeforeSize_not_faithful :
    ¬∀ s, system.Reachable Transition.Guard.free s → s.Faithful := by
  intro h
  have hrun : (system.run oneLine [toFile, .stat, .read 7, .read 7, .append [98, 10], .stat,
      .append [99, 10], .stat, .read 7]).map (fun s ↦ decide s.Faithful) = some false := by
    decide +kernel
  obtain ⟨s, hs, hnot⟩ := Option.map_eq_some_iff.mp hrun
  exact of_decide_eq_false hnot (h s ⟨_, ⟨_, rfl⟩, Transition.System.steps_of_run hs⟩)

end SparkPulse.Streams
