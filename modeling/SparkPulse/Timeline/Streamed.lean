import Mathlib.Data.List.Perm.Basic
import SparkPulse.Timeline.Live

/-!
# What a stream sends

A stream sends, of the broadcasts since it subscribed, those it wants: each once, in their order,
and all of them as soon as its queue is empty. A publisher is never broadcast twice.
-/

namespace SparkPulse.Timeline

open Program Prog Transition
open EventLog (Clock Event Frame Failure)

variable {c : Clock}

/-- What has been broadcast, in this order. -/
def World.broadcasts (w : World c) : List Frame := w.emitted.map fun x ↦ toDict x.2

/-- What has been handed over to the loop. -/
def World.handed (w : World c) : List (ℕ × Event c) := w.emitted ++ w.pending

/-- The event is what its publisher publishes. -/
def Published (requests : ℕ → Request c) (x : ℕ × Event c) : Prop :=
  ∃ source running event, requests x.1 = .publish source running event ∧ x.2 = source.event event

/-- What a stream has taken and what it has in its queue are the broadcasts since it subscribed, up
to some point. -/
structure Stream.Follows (stream : Stream) (queue broadcasts : List Frame) : Prop where
  since_le : stream.since ≤ broadcasts.length
  taken : stream.taken ++ queue <+: broadcasts.drop stream.since
  sent : stream.sent = stream.taken.filter stream.source.wants

/-! ## What holds of the service -/

structure Sound (requests : ℕ → Request c) (w : World c) : Prop where
  nodup : w.subscribers.Nodup
  created : ∀ q stream, w.streams q = some stream → q < w.created
  listens : ∀ q ∈ w.subscribers, ∃ stream, w.streams q = some stream ∧
    w.registered stream.source = true ∧
      stream.taken ++ w.queues q = w.broadcasts.drop stream.since
  follows : ∀ q stream, w.streams q = some stream → stream.Follows (w.queues q) w.broadcasts
  pages : ∀ p q, (w.pages p).stream = some q → ∃ stream, w.streams q = some stream ∧
    stream.source = .deployments ∧ stream.page = some p
  once : (w.handed.map Prod.fst).Nodup
  published : ∀ x ∈ w.handed, Published requests x
  recorded : ∀ x ∈ w.unsent, Published requests x

theorem sound_initial (requests : ℕ → Request c) (log : EventLog.World c) :
    Sound requests { log } where
  nodup := List.nodup_nil
  created _ _ h := by cases h
  listens _ h := by cases h
  follows _ _ h := by cases h
  pages _ _ h := by cases h
  once := List.nodup_nil
  published _ h := by cases h
  recorded _ h := by cases h

/-- What the other threads leave to a publisher. -/
structure Keeps (i : ℕ) (v w : World c) : Prop where
  registered : ∀ source, v.registered source = true → w.registered source = true
  handed : ∀ x ∈ w.handed, x.1 = i → x ∈ v.handed
  unsent : ∀ x ∈ w.unsent, x.1 = i → x ∈ v.unsent

theorem Keeps.refl (i : ℕ) (w : World c) : Keeps i w w :=
  ⟨fun _ h ↦ h, fun _ hx _ ↦ hx, fun _ hx _ ↦ hx⟩

theorem Keeps.trans (i : ℕ) (u v w : World c) (huv : Keeps i u v) (hvw : Keeps i v w) :
    Keeps i u w :=
  ⟨fun source h ↦ hvw.registered source (huv.registered source h),
    fun x hx hi ↦ huv.handed x (hvw.handed x hx hi) hi,
    fun x hx hi ↦ huv.unsent x (hvw.unsent x hx hi) hi⟩

/-! ## One call -/

section
variable {requests : ℕ → Request c} {i : ℕ} {v w : World c}

theorem putAll_apply {subscribers : List ℕ} (h : subscribers.Nodup) (queues : ℕ → List Frame)
    (data : Frame) (q : ℕ) : putAll subscribers queues data q =
      if q ∈ subscribers then queues q ++ [data] else queues q := by
  induction subscribers generalizing queues with
  | nil => rfl
  | cons s rest ih =>
    obtain ⟨hs, hrest⟩ := List.nodup_cons.mp h
    rw [putAll, List.foldl_cons, ← putAll, ih hrest]
    rcases eq_or_ne q s with rfl | hne
    · rw [if_neg hs, if_pos List.mem_cons_self, Function.update_self]
    · simp only [Function.update_of_ne hne, List.mem_cons, hne, false_or]

/-- A call that hands nothing over: it keeps what holds, and neither hands over nor records. -/
structure Leaves (requests : ℕ → Request c) (v w : World c) : Prop where
  sound : Sound requests w
  registered : ∀ source, v.registered source = true → w.registered source = true
  handed : ∀ x ∈ w.handed, x ∈ v.handed
  unsent : w.unsent = v.unsent

/-- A call that touches neither the streams nor the broadcasts. -/
theorem leaves_of_pages (hv : Sound requests v) (hsubscribers : w.subscribers = v.subscribers)
    (hcreated : w.created = v.created) (hregistered : w.registered = v.registered)
    (hstreams : w.streams = v.streams) (hqueues : w.queues = v.queues)
    (hpending : w.pending = v.pending) (hemitted : w.emitted = v.emitted)
    (hunsent : w.unsent = v.unsent)
    (hpages : ∀ p q, (w.pages p).stream = some q → (v.pages p).stream = some q) :
    Leaves requests v w := by
  have hbroadcasts : w.broadcasts = v.broadcasts := by rw [World.broadcasts, hemitted]; rfl
  have hhanded : w.handed = v.handed := by rw [World.handed, hemitted, hpending]; rfl
  refine ⟨⟨hsubscribers ▸ hv.nodup, fun q stream h ↦ ?_, fun q hq ↦ ?_, fun q stream h ↦ ?_,
    fun p q h ↦ ?_, hhanded ▸ hv.once, hhanded ▸ hv.published, hunsent ▸ hv.recorded⟩,
    fun source h ↦ hregistered ▸ h, fun x hx ↦ hhanded ▸ hx, hunsent⟩
  · rw [hcreated]
    exact hv.created q stream (hstreams ▸ h)
  · rw [hstreams, hregistered, hqueues, hbroadcasts]
    exact hv.listens q (hsubscribers ▸ hq)
  · rw [hqueues, hbroadcasts]
    exact hv.follows q stream (hstreams ▸ h)
  · rw [hstreams]
    exact hv.pages p q (hpages p q h)

theorem stream_onPage {p p' q : ℕ} {f : RunsPage → RunsPage}
    (hf : ∀ q, (f (v.pages p)).stream = some q → (v.pages p).stream = some q)
    (h : ((v.onPage p f).pages p').stream = some q) : (v.pages p').stream = some q := by
  change (Function.update v.pages p (f (v.pages p)) p').stream = some q at h
  rcases eq_or_ne p' p with rfl | hne
  · rw [Function.update_self] at h
    exact hf q h
  · rwa [Function.update_of_ne hne] at h

theorem leaves_onPage (hv : Sound requests v) (p : ℕ) (f : RunsPage → RunsPage)
    (hf : ∀ q, (f (v.pages p)).stream = some q → (v.pages p).stream = some q) :
    Leaves requests v (v.onPage p f) :=
  leaves_of_pages hv rfl rfl rfl rfl rfl rfl rfl rfl fun _ _ ↦ stream_onPage hf

theorem leaves_register (hv : Sound requests v) (source : Source) : Leaves requests v
    { v with registered := Function.update v.registered source true } := by
  have hmono : ∀ source', v.registered source' = true →
      Function.update v.registered source true source' = true := by
    intro source' h
    rw [Function.update_apply]
    split_ifs
    · rfl
    · exact h
  refine ⟨⟨hv.nodup, hv.created, fun q hq ↦ ?_, hv.follows, hv.pages, hv.once, hv.published,
    hv.recorded⟩, hmono, fun x hx ↦ hx, rfl⟩
  obtain ⟨stream, hstream, hregistered, hall⟩ := hv.listens q hq
  exact ⟨stream, hstream, hmono _ hregistered, hall⟩

theorem stream_attach {pages : ℕ → RunsPage} {q p q' : ℕ} {page : Option ℕ}
    (h : (attach pages q page p).stream = some q') :
    page = some p ∧ q' = q ∨ (pages p).stream = some q' := by
  rcases page with _ | p'
  · exact .inr h
  · rw [attach, Function.update_apply] at h
    split_ifs at h with hp
    · exact .inl ⟨by rw [hp], (Option.some.inj h).symm⟩
    · exact .inr h

theorem leaves_subscribe (hv : Sound requests v) {source : Source} {page : Option ℕ}
    (hregistered : v.registered source = true) (hpage : page.isSome → source = .deployments) :
    Leaves requests v (v.subscribe source page) := by
  have hold : ∀ q stream, v.streams q = some stream → q ≠ v.created := fun q stream h ↦
    (hv.created q stream h).ne
  have hnew : v.created ∉ v.subscribers := fun hmem ↦ by
    obtain ⟨stream, hstream, -⟩ := hv.listens _ hmem
    exact hold _ stream hstream rfl
  refine ⟨⟨?_, fun q stream h ↦ ?_, fun q hq ↦ ?_, fun q stream h ↦ ?_, fun p q h ↦ ?_, hv.once,
    hv.published, hv.recorded⟩, fun _ h ↦ h, fun x hx ↦ hx, rfl⟩
  · exact List.nodup_append.mpr ⟨hv.nodup, List.nodup_singleton _, fun a ha b hb heq ↦
      hnew (by rwa [← List.mem_singleton.mp hb, ← heq])⟩
  · change Function.update _ _ _ _ = _ at h
    rw [Function.update_apply] at h
    split_ifs at h with hq
    · rw [hq]
      exact Nat.lt_succ_self _
    · exact (hv.created q stream h).trans (Nat.lt_succ_self _)
  · simp only [World.subscribe]
    rcases List.mem_append.mp hq with hq | hq
    · obtain ⟨stream, hstream, hreg, hall⟩ := hv.listens q hq
      rw [Function.update_of_ne (hold q stream hstream),
        Function.update_of_ne (hold q stream hstream)]
      exact ⟨stream, hstream, hreg, hall⟩
    · rw [List.mem_singleton.mp hq, Function.update_self, Function.update_self]
      refine ⟨_, rfl, hregistered, ?_⟩
      rw [List.append_nil]
      exact (List.drop_of_length_le (List.length_map _).le).symm
  · change Function.update v.streams v.created _ q = _ at h
    change stream.Follows (Function.update v.queues v.created [] q) v.broadcasts
    rw [Function.update_apply] at h ⊢
    split_ifs at h ⊢
    · obtain rfl := Option.some.inj h
      exact ⟨(List.length_map _).ge, List.nil_prefix, rfl⟩
    · exact hv.follows q stream h
  · change ∃ stream, Function.update _ _ _ _ = _ ∧ _
    rcases stream_attach h with ⟨rfl, rfl⟩ | h
    · rw [Function.update_self]
      exact ⟨_, rfl, hpage rfl, rfl⟩
    · obtain ⟨stream, hstream, hrest⟩ := hv.pages p q h
      rw [Function.update_of_ne (hold q stream hstream)]
      exact ⟨stream, hstream, hrest⟩

theorem leaves_emit {k : ℕ} (hv : Sound requests v) (h : v.emit k = some w) :
    Leaves requests v w := by
  obtain ⟨x, hx, rfl⟩ := Option.map_eq_some_iff.mp h
  obtain ⟨hk, rfl⟩ := List.getElem?_eq_some_iff.mp hx
  have hperm : ((v.emitted ++ [v.pending[k]]) ++ v.pending.eraseIdx k).Perm v.handed := by
    rw [List.append_assoc]
    exact (List.getElem_cons_eraseIdx_perm hk).append_left _
  have hbroadcasts : (v.emitted ++ [v.pending[k]]).map (fun x ↦ toDict x.2) =
      v.broadcasts ++ [toDict v.pending[k].2] := by
    rw [List.map_append]
    rfl
  refine ⟨⟨hv.nodup, hv.created, fun q hq ↦ ?_, fun q stream hstream ↦ ?_, hv.pages,
    (hperm.map _).nodup_iff.mpr hv.once, fun x hx ↦ hv.published x (hperm.mem_iff.mp hx),
    hv.recorded⟩, fun _ h ↦ h, fun x hx ↦ hperm.mem_iff.mp hx, rfl⟩
  · obtain ⟨stream, hstream, hregistered, hall⟩ := hv.listens q hq
    refine ⟨stream, hstream, hregistered, ?_⟩
    change _ ++ putAll _ _ _ _ = List.drop _ (List.map _ _)
    rw [putAll_apply hv.nodup, if_pos hq, hbroadcasts, ← List.append_assoc, hall,
      List.drop_append_of_le_length (hv.follows q stream hstream).since_le]
  · obtain ⟨hsince, htaken, hsent⟩ := hv.follows q stream hstream
    change stream.Follows (putAll _ _ _ _) (List.map _ _)
    rw [putAll_apply hv.nodup, hbroadcasts]
    refine ⟨hsince.trans (by simp), ?_, hsent⟩
    rw [List.drop_append_of_le_length hsince]
    split_ifs with hq
    · obtain ⟨stream', hstream', -, hall⟩ := hv.listens q hq
      obtain rfl := Option.some.inj (hstream.symm.trans hstream')
      exact ⟨[], by rw [List.append_nil, ← List.append_assoc, hall]⟩
    · exact htaken.trans (List.prefix_append ..)

theorem stream_deliver {pages : ℕ → RunsPage} {q p : ℕ} {stream : Stream} {data : Frame}
    {uuid now : String} : (deliver pages q stream data uuid now p).stream = (pages p).stream := by
  rw [deliver]
  split_ifs
  · rcases stream.page with _ | p'
    · rfl
    · simp only [receive]
      split_ifs
      · rw [Function.update_apply]
        split_ifs with hp
        · rw [hp]
          rfl
        · rfl
      · rfl
  · rfl

theorem follows_take {stream : Stream} {data : Frame} {rest broadcasts : List Frame}
    (h : stream.Follows (data :: rest) broadcasts) :
    (stream.take data).Follows rest broadcasts := by
  obtain ⟨hsince, htaken, hsent⟩ := h
  refine ⟨hsince, ?_, ?_⟩
  · change (stream.taken ++ [data]) ++ rest <+: _
    rwa [List.append_assoc]
  · change (if _ then _ else _) = (stream.taken ++ [data]).filter stream.source.wants
    rw [hsent, List.filter_append, List.filter_singleton]
    cases stream.source.wants data
    · rw [if_neg Bool.false_ne_true, cond_false, List.append_nil]
    · rw [if_pos rfl, cond_true]

theorem leaves_get {q : ℕ} {uuid now : String} (hv : Sound requests v)
    (h : v.get q uuid now = some w) : Leaves requests v w := by
  rw [World.get] at h
  split at h
  case h_2 => cases h
  next stream data rest hstream hqueue =>
    split_ifs at h
    obtain rfl := Option.some.inj h
    have hfollows := hv.follows q stream hstream
    rw [hqueue] at hfollows
    -- what others have is as it was
    have hother : ∀ q' stream', v.streams q' = some stream' → ∃ stream'',
        Function.update v.streams q (some (stream.take data)) q' = some stream'' ∧
          stream''.source = stream'.source ∧ stream''.page = stream'.page ∧
            stream''.since = stream'.since ∧
              stream''.taken ++ Function.update v.queues q rest q' =
                stream'.taken ++ v.queues q' := by
      intro q' stream' hstream'
      rcases eq_or_ne q' q with rfl | hne
      · obtain rfl := Option.some.inj (hstream.symm.trans hstream')
        rw [Function.update_self, Function.update_self, hqueue]
        exact ⟨_, rfl, rfl, rfl, rfl, List.append_assoc ..⟩
      · rw [Function.update_of_ne hne, Function.update_of_ne hne]
        exact ⟨stream', hstream', rfl, rfl, rfl, rfl⟩
    refine ⟨⟨hv.nodup, fun q' stream' h ↦ ?_, fun q' hq' ↦ ?_, fun q' stream' h ↦ ?_,
      fun p q' h ↦ ?_, hv.once, hv.published, hv.recorded⟩, fun _ h ↦ h, fun x hx ↦ hx, rfl⟩
    · change Function.update v.streams q _ q' = _ at h
      rw [Function.update_apply] at h
      split_ifs at h with hq
      · rw [hq]
        exact hv.created q stream hstream
      · exact hv.created q' stream' h
    · obtain ⟨stream', hstream', hregistered, hall⟩ := hv.listens q' hq'
      obtain ⟨stream'', hstream'', hsource, -, hsince, htaken⟩ := hother q' stream' hstream'
      refine ⟨stream'', hstream'', hsource ▸ hregistered, ?_⟩
      rw [hsince]
      exact htaken.trans hall
    · change Function.update v.streams q _ q' = _ at h
      change stream'.Follows (Function.update v.queues q rest q') v.broadcasts
      rcases eq_or_ne q' q with rfl | hne
      · rw [Function.update_self] at h ⊢
        rw [← Option.some.inj h]
        exact follows_take hfollows
      · rw [Function.update_of_ne hne] at h ⊢
        exact hv.follows q' stream' h
    · obtain ⟨stream', hstream', hsource, hpage⟩ := hv.pages p q' (stream_deliver.symm.trans h)
      obtain ⟨stream'', hstream'', hsource', hpage', -⟩ := hother q' stream' hstream'
      exact ⟨stream'', hstream'', hsource'.trans hsource, hpage'.trans hpage⟩

theorem leaves_finish (hv : Sound requests v) (q : ℕ) (cancelled : Bool) :
    Leaves requests v (v.finish q cancelled) := by
  have hsubset : ∀ q' ∈ (v.finish q cancelled).subscribers, q' ∈ v.subscribers := fun q' hq' ↦ by
    change q' ∈ if _ then _ else _ at hq'
    split_ifs at hq'
    · exact List.mem_of_mem_erase hq'
    · exact hq'
  -- a stream that has ended is as it was, but for `running`
  have hstream : ∀ q' stream, v.streams q' = some stream →
      ∃ running, (v.finish q cancelled).streams q' = some { stream with running } := by
    intro q' stream h
    change ∃ running, Function.update _ _ _ _ = _
    rw [Function.update_apply]
    split_ifs with hq
    · rw [← hq, h]
      exact ⟨false, rfl⟩
    · exact ⟨stream.running, h⟩
  have hback : ∀ q' stream, (v.finish q cancelled).streams q' = some stream →
      ∃ running, v.streams q' = some { stream with running } := by
    intro q' stream h
    change Function.update _ _ _ _ = _ at h
    rw [Function.update_apply] at h
    split_ifs at h with hq
    · obtain ⟨stream', hstream', rfl⟩ := Option.map_eq_some_iff.mp h
      exact ⟨stream'.running, hq ▸ hstream'⟩
    · exact ⟨stream.running, h⟩
  refine ⟨⟨?_, fun q' stream h ↦ ?_, fun q' hq' ↦ ?_, fun q' stream h ↦ ?_, fun p q' h ↦ ?_,
    hv.once, hv.published, hv.recorded⟩, fun _ h ↦ h, fun x hx ↦ hx, rfl⟩
  · change (if _ then _ else _ : List ℕ).Nodup
    split_ifs
    · exact hv.nodup.erase q
    · exact hv.nodup
  · obtain ⟨running, hrunning⟩ := hback q' stream h
    exact hv.created q' _ hrunning
  · obtain ⟨stream, hs, hrest⟩ := hv.listens q' (hsubset q' hq')
    obtain ⟨running, hrunning⟩ := hstream q' stream hs
    exact ⟨_, hrunning, hrest⟩
  · obtain ⟨running, hrunning⟩ := hback q' stream h
    obtain ⟨hsince, htaken, hsent⟩ := hv.follows q' _ hrunning
    exact ⟨hsince, htaken, hsent⟩
  · obtain ⟨stream, hs, hrest⟩ := hv.pages p q' h
    obtain ⟨running, hrunning⟩ := hstream q' stream hs
    exact ⟨_, hrunning, hrest⟩

/-! ## Quiet calls -/

/-- A call that any thread may make at any time. -/
def Call.Quiet : Call c → Prop
  | .log (.insert _) | .handOver .. | .subscribe .. => False
  | _ => True

theorem recorded_eq_nil {e : EventLog.Call c} {r : e.Ret} (he : (Call.log e).Quiet) :
    recorded i e r = [] := by
  cases e with
  | insert event => exact he.elim
  | _ => rfl

theorem stream_arrive {page : RunsPage} {response : Response} {uuid : ℕ → String} {now : String} :
    (page.arrive response uuid now).stream = page.stream := by
  rw [RunsPage.arrive]
  split_ifs <;> rfl

theorem leaves_arrive {k : ℕ} {uuid : ℕ → String} {now : String} (hv : Sound requests v)
    (h : v.arrive k uuid now = some w) : Leaves requests v w := by
  obtain ⟨response, -, rfl⟩ := Option.map_eq_some_iff.mp h
  refine leaves_of_pages hv rfl rfl rfl rfl rfl rfl rfl rfl fun p q h ↦ ?_
  exact stream_onPage (fun q h ↦ stream_arrive ▸ h) h

/-- **One quiet call.** -/
theorem leaves_of_quiet {e : Call c} {r : e.Ret} (hv : Sound requests v) (he : e.Quiet)
    (h : Threads.performs Call.exec (fun _ _ _ ↦ True) i v e r w) : Leaves requests v w := by
  obtain ⟨-, a, h⟩ := h
  cases e with
  | handOver | subscribe => exact he.elim
  | log e =>
    obtain ⟨⟨r', log⟩, -, heq⟩ := Option.map_eq_some_iff.mp h
    obtain ⟨rfl, rfl⟩ := Prod.mk.inj heq
    exact leaves_of_pages hv rfl rfl rfl rfl rfl rfl rfl
      (by rw [recorded_eq_nil he, List.nil_append]) fun _ _ h ↦ h
  | register source =>
    obtain ⟨-, rfl⟩ := Prod.mk.inj (Option.some.inj h)
    exact leaves_register hv source
  | emit =>
    obtain ⟨w', hw', heq⟩ := Option.map_eq_some_iff.mp h
    obtain ⟨-, rfl⟩ := Prod.mk.inj heq
    exact leaves_emit hv hw'
  | get q =>
    obtain ⟨w', hw', heq⟩ := Option.map_eq_some_iff.mp h
    obtain ⟨-, rfl⟩ := Prod.mk.inj heq
    exact leaves_get hv hw'
  | finish q cancelled =>
    obtain ⟨-, rfl⟩ := Prod.mk.inj (Option.some.inj h)
    exact leaves_finish hv q cancelled
  | disconnect p =>
    obtain ⟨-, rfl⟩ := Prod.mk.inj (Option.some.inj h)
    exact leaves_onPage hv p _ fun q h ↦ by cases h
  | expand p run | clear p run =>
    obtain ⟨-, rfl⟩ := Prod.mk.inj (Option.some.inj h)
    exact leaves_onPage hv p _ fun q h ↦ h
  | read p run =>
    obtain ⟨-, rfl⟩ := Prod.mk.inj (Option.some.inj h)
    split_ifs
    · exact leaves_of_pages hv rfl rfl rfl rfl rfl rfl rfl rfl fun _ _ h ↦ h
    · exact leaves_of_pages hv rfl rfl rfl rfl rfl rfl rfl rfl fun _ _ h ↦ h
  | arrive =>
    obtain ⟨w', hw', heq⟩ := Option.map_eq_some_iff.mp h
    obtain ⟨-, rfl⟩ := Prod.mk.inj heq
    exact leaves_arrive hv hw'

end

/-! ## Publishers among the others -/

/-- A thread in its surroundings. -/
abbrev shared (requests : ℕ → Request c) : ℕ → Setting (Call.Ret (c := c)) (World c) :=
  Threads.sharing Call.exec (fun _ _ _ ↦ True) (Sound requests) Keeps

theorem compatible_shared (requests : ℕ → Request c) : Threads.Compatible (shared requests) :=
  Threads.compatible_sharing Keeps.refl Keeps.trans

/-- A thread that has handed nothing over, and has recorded nothing but these events. -/
structure Knows (requests : ℕ → Request c) (i : ℕ) (events : List (Event c)) (w : World c) :
    Prop where
  sound : Sound requests w
  handed : ∀ x ∈ w.handed, x.1 ≠ i
  unsent : ∀ x ∈ w.unsent, x.1 = i → x.2 ∈ events
  published : ∀ event ∈ events, Published requests (i, event)

/-- A thread has handed over what it has recorded. -/
def Sent (i : ℕ) (w : World c) : Prop := ∀ x ∈ w.unsent, x.1 ≠ i

/-- A quiet call, or the record of one of these events. -/
def Call.Tame (events : List (Event c)) : Call c → Prop
  | .log (.insert event) => event ∈ events
  | e => e.Quiet

section
variable {requests : ℕ → Request c} {i : ℕ} {events : List (Event c)} {event : Event c}
  {v w : World c} {α : Type} {Q : α → World c → Prop}

theorem Knows.keeps (h : Knows requests i events v) (hw : Sound requests w) (hkeep : Keeps i v w) :
    Knows requests i events w :=
  ⟨hw, fun x hx hi ↦ h.handed x (hkeep.handed x hx hi) hi,
    fun x hx hi ↦ h.unsent x (hkeep.unsent x hx hi) hi, h.published⟩

theorem Knows.sent (h : Knows requests i [] w) : Sent i w := fun _ hx hi ↦
  List.not_mem_nil (h.unsent _ hx hi)

theorem Sent.keeps (h : Sent i v) (hkeep : Keeps i v w) : Sent i w := fun _ hx hi ↦
  h _ (hkeep.unsent _ hx hi) hi

theorem Leaves.keeps (h : Leaves requests v w) (j : ℕ) : Keeps j v w :=
  ⟨h.registered, fun x hx _ ↦ h.handed x hx, fun _ hx _ ↦ h.unsent ▸ hx⟩

/-- A tame call leaves a thread what it knows, and the others what they know. -/
theorem knows_of_tame {e : Call c} {r : e.Ret} (hv : Knows requests i events v)
    (he : e.Tame events) (h : Threads.performs Call.exec (fun _ _ _ ↦ True) i v e r w) :
    Knows requests i events w ∧ ∀ j, j ≠ i → Keeps j v w := by
  have hquiet (he : e.Quiet) : Knows requests i events w ∧ ∀ j, j ≠ i → Keeps j v w := by
    have hleaves := leaves_of_quiet hv.sound he h
    exact ⟨hv.keeps hleaves.sound (hleaves.keeps i), fun j _ ↦ hleaves.keeps j⟩
  cases e with
  | log e =>
    cases e with
    | insert event =>
      obtain ⟨-, a, h⟩ := h
      obtain ⟨⟨r', log⟩, -, heq⟩ := Option.map_eq_some_iff.mp h
      obtain ⟨rfl, rfl⟩ := Prod.mk.inj heq
      have hadded : ∀ x ∈ recorded i (.insert event) r' ++ v.unsent,
          x = (i, event) ∨ x ∈ v.unsent := by
        intro x hx
        rcases List.mem_append.mp hx with hx | hx
        · cases r' with
          | error => cases hx
          | ok => exact .inl (List.mem_singleton.mp hx)
        · exact .inr hx
      refine ⟨⟨?_, hv.handed, fun x hx hi ↦ ?_, hv.published⟩,
        fun j hj ↦ ⟨fun _ h ↦ h, fun _ hx _ ↦ hx, fun x hx hxj ↦ ?_⟩⟩
      · obtain ⟨hnodup, hcreated, hlistens, hfollows, hpages, honce, hpublished, hrecorded⟩ :=
          hv.sound
        refine ⟨hnodup, hcreated, hlistens, hfollows, hpages, honce, hpublished, fun x hx ↦ ?_⟩
        rcases hadded x hx with rfl | hx
        · exact hv.published event he
        · exact hrecorded x hx
      · rcases hadded x hx with rfl | hx
        · exact he
        · exact hv.unsent x hx hi
      · rcases hadded x hx with rfl | hx
        · exact absurd hxj.symm hj
        · exact hx
    | _ => exact hquiet he
  | handOver | subscribe => exact he.elim
  | _ => exact hquiet trivial

theorem safe_of_tame {p : Op c α} (h : p.Uses (Call.Tame events))
    (hw : Knows requests i events w) :
    p.Safe (shared requests i) (fun _ ↦ Knows requests i events)
      (fun _ ↦ Knows requests i events) w := by
  refine h.safe ?_ ?_ hw
  · intro u v hu hrely
    obtain ⟨hv, hkeep⟩ := hrely hu.sound
    exact hu.keeps hv hkeep
  · intro u e r v he hu hr
    obtain ⟨hv, hkeep⟩ := knows_of_tame hu he hr
    exact ⟨fun _ ↦ ⟨hv.sound, hkeep⟩, hv⟩

/-- A program of tame calls that records nothing. -/
theorem safe_of_quiet {p : Op c α} (h : p.Uses (Call.Tame [])) (hw : Knows requests i [] w) :
    p.Safe (shared requests i) (fun _ ↦ Sent i) (fun _ ↦ Sent i) w :=
  (safe_of_tame h hw).mono (fun _ _ h ↦ h.sent) fun _ _ h ↦ h.sent

theorem uses_log {p : EventLog.Op c α} (h : p.Uses fun e ↦ (Call.log e).Tame events) :
    (p.embed .log fun _ r ↦ r : Op c α).Uses (Call.Tame events) := h.embed

theorem uses_execute {A : EventLog.Call c → Prop} {e : EventLog.Call c} (h : A e) :
    (EventLog.execute e).Uses A := ⟨h, fun r ↦ by cases r <;> trivial⟩

theorem uses_trim (resource : String) :
    (EventLog.trim resource).Uses fun e ↦ (Call.log e : Call c).Tame events := by
  unfold EventLog.trim
  refine Uses.ite (fun _ ↦ trivial) fun _ ↦ (uses_execute trivial).bind fun held ↦ ?_
  unfold EventLog.removeOldest
  refine Uses.ite (fun _ ↦ trivial) fun _ ↦ (uses_execute trivial).bind fun doomed ↦ ?_
  unfold EventLog.removeAll
  exact Uses.ite (fun _ ↦ trivial) fun _ ↦ (uses_execute trivial).bind fun _ ↦ trivial

theorem uses_sweepIfDue :
    (EventLog.sweepIfDue).Uses fun e ↦ (Call.log e : Call c).Tame events := by
  unfold EventLog.sweepIfDue
  refine (uses_execute trivial).bind fun due ↦ ?_
  rcases due with _ | cutoff
  · trivial
  · unfold EventLog.sweep
    refine (uses_execute trivial).bind fun doomed ↦ ?_
    exact Uses.ite (fun _ ↦ trivial) fun _ ↦ (uses_execute trivial).bind fun _ ↦ trivial

theorem uses_record (event : Event c) : (record event).Uses (Call.Tame [event]) := by
  refine uses_log ?_
  unfold EventLog.record
  refine (uses_execute (List.mem_singleton_self event)).attempt.bind fun outcome ↦ ?_
  rcases outcome with _ | _
  · trivial
  · refine Uses.bind (Uses.attempt ?_) fun _ ↦ trivial
    unfold EventLog.retain
    exact (uses_trim event.resource).bind fun _ ↦ uses_sweepIfDue

theorem raises_record (event : Event c) : (record event).Raises fun _ ↦ False := by
  refine Raises.embed ((raises_attempt _).bind fun outcome ↦ ?_)
  rcases outcome with _ | _
  · trivial
  · exact (raises_attempt _).bind fun _ ↦ trivial

/-- **Handing over.** It is the last call of a publisher, and its only one of this kind. -/
theorem safe_handOver {source : Source} {running : Bool}
    (hpublished : Published requests (i, event))
    (hevents : ∀ e ∈ events, source = .deployments ∧ e = event)
    (hw : Knows requests i events w) :
    (invoke (.handOver source running event)).Safe (shared requests i) (fun _ ↦ Sent i)
      (fun _ ↦ Sent i) w := by
  rintro u hrely r v ⟨-, a, hr⟩
  obtain ⟨hu, hkeep⟩ := hrely hw.sound
  have hknows := hw.keeps hu hkeep
  obtain ⟨-, rfl⟩ := Prod.mk.inj (Option.some.inj hr)
  have hpending : (u.handOver i source running event).handed = u.handed ∨
      (u.handOver i source running event).handed = u.handed ++ [(i, event)] := by
    change u.emitted ++ (if _ then _ else _) = _ ∨ u.emitted ++ (if _ then _ else _) = _
    split_ifs
    · exact .inr (List.append_assoc ..).symm
    · exact .inl rfl
  have hunsent : ∀ x ∈ (u.handOver i source running event).unsent, x ∈ u.unsent := by
    intro x hx
    change x ∈ if _ then _ else _ at hx
    split_ifs at hx
    · exact List.mem_of_mem_filter hx
    · exact hx
  have hsound : Sound requests (u.handOver i source running event) := by
    obtain ⟨hnodup, hcreated, hlistens, hfollows, hpages, honce, hpub, hrecorded⟩ := hu
    refine ⟨hnodup, hcreated, hlistens, hfollows, hpages, ?_, ?_,
      fun x hx ↦ hrecorded x (hunsent x hx)⟩
    · rcases hpending with h | h
      · rwa [h]
      · rw [h, List.map_append, List.nodup_append]
        refine ⟨honce, List.nodup_singleton _, fun j hj j' hj' heq ↦ ?_⟩
        obtain ⟨x, hx, rfl⟩ := List.mem_map.mp hj
        exact hknows.handed x hx (heq.trans (List.mem_singleton.mp hj'))
    · intro x hx
      rcases hpending with h | h
      · exact hpub x (h ▸ hx)
      · rcases List.mem_append.mp (h ▸ hx) with hx | hx
        · exact hpub x hx
        · rwa [List.mem_singleton.mp hx]
  refine ⟨fun _ ↦ ⟨hsound, fun j hj ↦ ⟨fun _ h ↦ h, fun x hx hxj ↦ ?_, fun x hx _ ↦ hunsent x hx⟩⟩,
    fun x hx hi ↦ ?_⟩
  · rcases hpending with h | h
    · exact h ▸ hx
    · rcases List.mem_append.mp (h ▸ hx) with hx | hx
      · exact hx
      · rw [List.mem_singleton.mp hx] at hxj
        exact absurd hxj.symm hj
  · obtain ⟨hsource, heq⟩ := hevents _ (hknows.unsent x (hunsent x hx) hi)
    change x ∈ if _ then _ else _ at hx
    rw [if_pos hsource] at hx
    have hkept := of_decide_eq_true (List.mem_filter.mp hx).2
    exact hkept ⟨hi, by rw [heq], by rw [heq]⟩

theorem safe_publishEvent {source : Source} {running : Bool}
    (hrequest : requests i = .publish source running event) (hw : Knows requests i [] w) :
    (publishEvent source running event).Safe (shared requests i) (fun _ ↦ Sent i)
      (fun _ ↦ Sent i) w := by
  have hpublished : Published requests (i, source.event event) :=
    ⟨source, running, event, hrequest, rfl⟩
  cases source with
  | deployments =>
    unfold publishEvent
    rw [safe_bind]
    have hknows : Knows requests i [Source.deployments.event event] w :=
      ⟨hw.sound, hw.handed, fun x hx hi ↦ absurd hi (hw.sent x hx),
        fun e he ↦ List.mem_singleton.mp he ▸ hpublished⟩
    refine ((raises_record _).safe (safe_of_tame (uses_record _) hknows)).mono (fun _ v hv ↦ ?_)
      fun _ _ h ↦ h.1.elim
    exact safe_handOver hpublished (fun e he ↦ ⟨rfl, List.mem_singleton.mp he⟩) hv
  | models | images => exact safe_handOver hpublished (fun _ h ↦ by cases h) hw

/-- A generator registers its loop before it subscribes. -/
theorem safe_connect {source : Source} {page : Option ℕ}
    (hpage : page.isSome → source = .deployments) (hw : Knows requests i [] w) :
    (connect source page).Safe (shared requests i) (fun _ ↦ Sent i) (fun _ ↦ Sent i) w := by
  unfold connect
  rintro u hrely r v hr
  obtain ⟨hu, hkeep⟩ := hrely hw.sound
  obtain ⟨hv, hother⟩ := knows_of_tame (hw.keeps hu hkeep) (by trivial) hr
  obtain ⟨-, a, hr⟩ := hr
  obtain ⟨-, rfl⟩ := Prod.mk.inj (Option.some.inj hr)
  refine ⟨fun _ ↦ ⟨hv.sound, hother⟩, ?_⟩
  rintro u' hrely' r' v' ⟨-, a', hr'⟩
  obtain ⟨hu', hkeep'⟩ := hrely' hv.sound
  obtain ⟨-, rfl⟩ := Prod.mk.inj (Option.some.inj hr')
  have hleaves := leaves_subscribe hu' (hkeep'.registered source (Function.update_self ..)) hpage
  refine ⟨fun _ ↦ ⟨hleaves.sound, fun j _ ↦ hleaves.keeps j⟩, ?_⟩
  exact (hv.sent.keeps hkeep').keeps (hleaves.keeps i)

theorem safe_program (hw : Knows requests i [] w) :
    (requests i).program.Safe (shared requests i) (fun _ ↦ Sent i) (fun _ ↦ Sent i) w := by
  rcases hrequest : requests i
  case publish source running event => exact safe_publishEvent hrequest hw
  case trim resource =>
    exact safe_of_quiet (uses_log ((uses_trim resource).bind fun _ ↦ trivial)) hw
  case forget resource => exact safe_of_quiet (uses_log (uses_execute trivial)) hw
  case visit p => exact safe_connect (fun _ ↦ rfl) hw
  case follow source => exact safe_connect (fun h ↦ by cases h) hw
  case expand p run => exact safe_of_quiet ⟨trivial, fun _ ↦ ⟨trivial, fun _ ↦ trivial⟩⟩ hw
  all_goals exact safe_of_quiet ⟨trivial, fun _ ↦ trivial⟩ hw

end

/-! ## Whole runs -/

section
variable {requests : ℕ → Request c} {s t : Machine c}

theorem poised_of_init (hs : (system requests).init s)
    (h : (system requests).Steps Guard.free s t) :
    Sound requests t.world ∧ ∀ i, (∀ a, t.pool i = .ret a → Sent i t.world) ∧
      ∀ x, t.pool i = .raise x → Sent i t.world := by
  obtain ⟨hpool, log, hworld⟩ := hs
  have hsound : Sound requests s.world := hworld ▸ sound_initial requests log
  have hsafe : ∀ i, (s.pool i).Safe (shared requests i) (fun _ ↦ Sent i) (fun _ ↦ Sent i)
      s.world := by
    intro i
    rw [hpool]
    refine safe_program ⟨hsound, fun x hx ↦ ?_, fun x hx ↦ ?_, fun _ h ↦ by cases h⟩
    · rw [hworld] at hx
      cases hx
    · rw [hworld] at hx
      cases hx
  have hsteps := h.mono (H := Threads.stepGuard fun _ _ _ ↦ True) fun _ _ _ ↦ by
    unfold Threads.stepGuard
    split <;> trivial
  have hended := Threads.Poised.sharing_ended (Q := fun i _ ↦ Sent i) (X := fun i _ ↦ Sent i)
    (fun i _ v w hkeep h ↦ h.keeps hkeep) (fun i _ v w hkeep h ↦ h.keeps hkeep)
    (compatible_shared requests) hsteps hsound hsafe
  exact ⟨(Threads.Poised.sharing_steps (compatible_shared requests) hsteps hsound hsafe).2,
    fun i ↦ ⟨hended.1 i, hended.2 i⟩⟩

theorem sound_of_reachable (h : (system requests).Reachable Guard.free t) :
    Sound requests t.world := by
  obtain ⟨s, hs, hsteps⟩ := h
  exact (poised_of_init hs hsteps).1

/-- **What the streams send.** Everything broadcast was published, by a publisher that is broadcast
only once. Each stream has sent, of the first few broadcasts since it subscribed, those it wants, in
their order; of all of them when it still subscribes and its queue is empty. -/
theorem streams_send (h : (system requests).Reachable Guard.free t) :
    (t.world.emitted.map Prod.fst).Nodup ∧
      (∀ x ∈ t.world.emitted, Published requests x) ∧
        ∀ q stream, t.world.streams q = some stream →
          (∃ n, stream.sent =
            ((t.world.broadcasts.drop stream.since).take n).filter stream.source.wants) ∧
            (q ∈ t.world.subscribers → t.world.queues q = [] →
              stream.sent =
                (t.world.broadcasts.drop stream.since).filter stream.source.wants) := by
  have hsound := sound_of_reachable h
  refine ⟨?_, fun x hx ↦ hsound.published x (List.mem_append_left _ hx), fun q stream hstream ↦ ?_⟩
  · have honce := hsound.once
    rw [World.handed, List.map_append] at honce
    exact (List.nodup_append.mp honce).1
  · obtain ⟨-, htaken, hsent⟩ := hsound.follows q stream hstream
    refine ⟨⟨stream.taken.length, ?_⟩, fun hq hqueue ↦ ?_⟩
    · rw [hsent, ← List.prefix_iff_eq_take.mp ((List.prefix_append _ _).trans htaken)]
    · obtain ⟨stream', hstream', -, hall⟩ := hsound.listens q hq
      obtain rfl := Option.some.inj (hstream.symm.trans hstream')
      rw [hqueue, List.append_nil] at hall
      rw [hsent, hall]

end

/-! ## One event -/

private theorem thisYear_mem : 1 ≤ 2026 ∧ 2026 ≤ 9999 := by omega

private theorem january_mem : 1 ≤ 1 ∧ 1 ≤ 12 := by omega

private theorem theFirst_mem : 1 ≤ 1 ∧ 1 ≤ daysIn 2026 1 := by decide

private theorem noHours_lt : 0 < 24 := by omega

private theorem noMinutes_lt : 0 < 60 := by omega

private theorem noMicroseconds_lt : 0 < 1000000 := by omega

private def atMidnight : Moment :=
  ⟨2026, 1, 1, 0, 0, 0, 0, thisYear_mem, january_mem, theFirst_mem, noHours_lt, noMinutes_lt,
    noMinutes_lt, noMicroseconds_lt⟩

/-- An event of a run, as it is published. -/
def ready : Event EventLog.utcClock :=
  { eventId := "a", eventType := "deployment_ready", timestamp := atMidnight, resource := "run" }

/-- A page opens its stream and then the row of a run, and an event is published and comes to it. -/
def watched : ℕ → Request EventLog.utcClock
  | 0 => .visit 0
  | 1 => .expand 0 "run"
  | 2 => .publish .deployments false ready
  | 3 => .emit
  | 4 => .get 0
  | _ => .arrive

def unwatched : Machine EventLog.utcClock :=
  ⟨fun i ↦ (watched i).program, { log := { table := .empty } }⟩

theorem unwatched_init : (system watched).init unwatched := ⟨fun _ ↦ rfl, _, rfl⟩

/-- The schedule of it. -/
def watching : List (ℕ × Answer) :=
  [0, 0, 1, 1, 2, 2, 2, 2, 2, 3, 4, 5].map fun i ↦ (i, {})

/-- The stream has sent the event. -/
theorem streams_send_watched : ∃ t stream, (system watched).run unwatched watching = some t ∧
    t.world.streams 0 = some stream ∧ stream.sent ≠ [] ∧
      stream.sent = (t.world.broadcasts.drop stream.since).filter stream.source.wants := by
  obtain ⟨t, ht, hsent⟩ := (Option.any_eq_true _ _).mp
    (show ((system watched).run unwatched watching).any (fun t ↦ decide
      ((t.world.streams 0).any (fun stream ↦ decide (stream.sent ≠ [])) ∧
        t.world.queues 0 = [] ∧ t.world.subscribers = [0])) = true by decide +kernel)
  obtain ⟨hstream, hqueue, hsubscribers⟩ := of_decide_eq_true hsent
  obtain ⟨stream, hstream, hne⟩ := (Option.any_eq_true _ _).mp hstream
  have hall := streams_send (t := t) ⟨_, unwatched_init, System.steps_of_run ht⟩
  exact ⟨t, stream, ht, hstream, of_decide_eq_true hne,
    (hall.2.2 0 stream hstream).2 (hsubscribers ▸ List.mem_singleton_self 0) hqueue⟩

end SparkPulse.Timeline
