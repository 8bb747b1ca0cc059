import SparkPulse.Timeline.Streamed

/-!
# What the page shows

A page that read the history of a run while its stream was open shows every event that is held, but
for those that were too old for the history already when it was read, are still on their way, or
were cut off or cleared; it shows none twice, and nothing else.
-/

namespace SparkPulse.Timeline

open Program Prog Transition
open EventLog (Clock Event Frame Failure Row history frameOf)

variable {c : Clock}

/-! ## Merging -/

section
variable {seen : List String} {entries : List Entry} {getTime : String → ℤ}

theorem mem_unseen {entry : Entry} (h : entry ∈ unseen seen entries) : entry ∈ entries := by
  induction entries generalizing seen with
  | nil => exact h
  | cons first rest ih =>
    rw [unseen] at h
    split_ifs at h
    · exact List.mem_cons_of_mem _ (ih h)
    · rcases List.mem_cons.mp h with rfl | h
      · exact List.mem_cons_self
      · exact List.mem_cons_of_mem _ (ih h)

theorem notMem_of_mem_unseen {entry : Entry} (h : entry ∈ unseen seen entries) :
    entry.eventId ∉ seen := by
  induction entries generalizing seen with
  | nil => cases h
  | cons first rest ih =>
    rw [unseen] at h
    split_ifs at h with hfirst
    · exact ih h
    · rcases List.mem_cons.mp h with rfl | h
      · exact hfirst
      · exact fun hmem ↦ ih h (List.mem_cons_of_mem _ hmem)

theorem ids_unseen_nodup : ((unseen seen entries).map Entry.eventId).Nodup := by
  induction entries generalizing seen with
  | nil => exact List.nodup_nil
  | cons first rest ih =>
    rw [unseen]
    split_ifs
    · exact ih
    · rw [List.map_cons, List.nodup_cons]
      refine ⟨fun hmem ↦ ?_, ih⟩
      obtain ⟨entry, hentry, heq⟩ := List.mem_map.mp hmem
      exact notMem_of_mem_unseen hentry (heq ▸ List.mem_cons_self)

theorem id_mem_unseen {entry : Entry} (h : entry ∈ entries) (hseen : entry.eventId ∉ seen) :
    entry.eventId ∈ (unseen seen entries).map Entry.eventId := by
  induction entries generalizing seen with
  | nil => cases h
  | cons first rest ih =>
    rw [unseen]
    split_ifs with hfirst
    · rcases List.mem_cons.mp h with rfl | h
      · exact absurd hfirst hseen
      · exact ih h hseen
    · rw [List.map_cons]
      rcases List.mem_cons.mp h with rfl | h
      · exact List.mem_cons_self
      · by_cases heq : entry.eventId = first.eventId
        · exact heq ▸ List.mem_cons_self
        · exact List.mem_cons_of_mem _ (ih h fun hmem ↦
            (List.mem_cons.mp hmem).elim heq hseen)

theorem newerFirst_trans (a b d : Entry) (hab : newerFirst getTime a b = true)
    (hbd : newerFirst getTime b d = true) : newerFirst getTime a d = true :=
  decide_eq_true ((of_decide_eq_true hbd).trans (of_decide_eq_true hab))

theorem newerFirst_total (a b : Entry) :
    (newerFirst getTime a b || newerFirst getTime b a) = true := by
  rw [Bool.or_eq_true]
  exact (le_total (getTime b.timestamp) (getTime a.timestamp)).imp decide_eq_true decide_eq_true

variable (getTime)

/-- **Merging.** Every id of the lists stands once, the newest first. -/
theorem mergeEvents_spec (lists : List (List Entry)) :
    ((mergeEvents getTime lists).map Entry.eventId).Nodup ∧
      (mergeEvents getTime lists).Pairwise
        (fun a b ↦ getTime b.timestamp ≤ getTime a.timestamp) ∧
          (∀ entry ∈ mergeEvents getTime lists, entry ∈ lists.flatten) ∧
            ∀ entry ∈ lists.flatten,
              entry.eventId ∈ (mergeEvents getTime lists).map Entry.eventId := by
  have hperm : (mergeEvents getTime lists).Perm (unseen [] lists.flatten) :=
    List.mergeSort_perm ..
  refine ⟨(hperm.map _).nodup_iff.mpr ids_unseen_nodup, ?_,
    fun entry h ↦ mem_unseen (hperm.mem_iff.mp h),
    fun entry h ↦ (hperm.map _).mem_iff.mpr (id_mem_unseen h List.not_mem_nil)⟩
  exact (List.pairwise_mergeSort newerFirst_trans newerFirst_total _).imp of_decide_eq_true

end

/-! ## On the way -/

/-- An event that has come to a page. -/
def Brought (page : RunsPage) (id run : String) : Prop :=
  ∃ entry ∈ page.events ++ (page.dropped ++ page.cleared), entry.eventId = id ∧ entry.resource = run

/-- An event that is on its way to the queue of a stream, is there, or has come to the page. -/
def Reaching (w : World c) (p q : ℕ) (id run : String) : Prop :=
  (∃ x ∈ w.unsent, x.2.eventId = id ∧ x.2.resource = run) ∨
    (∃ x ∈ w.pending, x.2.eventId = id ∧ x.2.resource = run) ∨
      (∃ data ∈ w.queues q, data.eventId = id ∧ data.resource = run) ∨
        Brought (w.pages p) id run

/-- As long as a page has its stream, what it holds of a run lacks no event but those on the way. -/
def Covered (w : World c) (p : ℕ) (run : String) (held : List Frame) (q : ℕ) : Prop :=
  (w.pages p).stream = some q → q ∈ w.subscribers → ∀ row ∈ w.log.table.held run,
    row.eventId ≠ "" → row.eventId ∈ held.map Frame.eventId ∨ Reaching w p q row.eventId run

/-- What a step does for the pages that have a stream. -/
structure Passes (v w : World c) : Prop where
  created : v.created ≤ w.created
  stream : ∀ p, ∀ q < v.created, (w.pages p).stream = some q → (v.pages p).stream = some q
  subscribers : ∀ q < v.created, q ∈ w.subscribers → q ∈ v.subscribers
  rows : ∀ row ∈ w.log.table.rows, row ∈ v.log.table.rows ∨
    ∃ x ∈ w.unsent, x.2.eventId = row.eventId ∧ x.2.resource = row.resource
  reaching : ∀ p, ∀ q < v.created, (v.pages p).stream = some q → q ∈ v.subscribers →
    ∀ id run, id ≠ "" → Reaching v p q id run → Reaching w p q id run

theorem Covered.passes {v w : World c} (h : Passes v w) {p q : ℕ} {run : String}
    {held : List Frame} (hq : q < v.created) (hv : Covered v p run held q) :
    Covered w p run held q := by
  intro hstream hsubscribed row hrow hid
  obtain ⟨hrow, hrun⟩ := EventLog.Table.mem_held.mp hrow
  have hstream' := h.stream p q hq hstream
  have hsubscribed' := h.subscribers q hq hsubscribed
  rcases h.rows row hrow with hrow | ⟨x, hx, hname, hresource⟩
  · rcases hv hstream' hsubscribed' row (EventLog.Table.mem_held.mpr ⟨hrow, hrun⟩) hid with
      hheld | hreach
    · exact .inl hheld
    · exact .inr (h.reaching p q hq hstream' hsubscribed' _ _ hid hreach)
  · exact .inr (.inl ⟨x, hx, hname, hresource.trans hrun⟩)

/-! ## One call -/

section
variable {requests : ℕ → Request c} {i : ℕ} {v w : World c}

/-- A call that touches only pages. -/
theorem passes_of_pages (hlog : w.log = v.log) (hunsent : w.unsent = v.unsent)
    (hpending : w.pending = v.pending) (hqueues : w.queues = v.queues)
    (hcreated : w.created = v.created) (hsubscribers : w.subscribers = v.subscribers)
    (hstream : ∀ p q, (w.pages p).stream = some q → (v.pages p).stream = some q)
    (hbrought : ∀ p id run, Brought (v.pages p) id run → Brought (w.pages p) id run) :
    Passes v w where
  created := hcreated.ge
  stream p q _ := hstream p q
  subscribers q _ := hsubscribers ▸ id
  rows row hrow := .inl (hlog ▸ hrow)
  reaching p q _ _ _ id run _ h := by
    rw [Reaching, hunsent, hpending, hqueues]
    exact h.imp_right (Or.imp_right (Or.imp_right (hbrought p id run)))

theorem brought_onPage {p p' : ℕ} {f : RunsPage → RunsPage} {id run : String}
    (hf : ∀ page, Brought page id run → Brought (f page) id run) (h : Brought (v.pages p') id run) :
    Brought ((v.onPage p f).pages p') id run := by
  change Brought (Function.update v.pages p (f (v.pages p)) p') id run
  rw [Function.update_apply]
  split_ifs with hp
  · exact hf _ (hp ▸ h)
  · exact h

theorem passes_onPage (p : ℕ) (f : RunsPage → RunsPage)
    (hf : ∀ page q, (f page).stream = some q → page.stream = some q)
    (hbrought : ∀ page id run, Brought page id run → Brought (f page) id run) :
    Passes v (v.onPage p f) :=
  passes_of_pages rfl rfl rfl rfl rfl rfl (fun _ _ ↦ stream_onPage (hf _)) fun _ id run ↦
    brought_onPage fun page ↦ hbrought page id run

theorem brought_onMessage {page : RunsPage} {entry : Entry} {id run : String}
    (h : Brought page id run ∨ entry.eventId = id ∧ entry.resource = run) :
    Brought (page.onMessage entry) id run := by
  have hall : ∀ entry' ∈ entry :: page.events,
      entry' ∈ (page.onMessage entry).events ++ (page.onMessage entry).dropped := by
    intro entry' hentry'
    rw [← List.take_append_drop eventLimit (entry :: page.events)] at hentry'
    change entry' ∈ _ ++ (_ ++ page.dropped)
    rw [← List.append_assoc]
    exact List.mem_append_left _ hentry'
  rcases h with ⟨entry', hentry', hname⟩ | hname
  · refine ⟨entry', ?_, hname⟩
    rw [← List.append_assoc] at hentry' ⊢
    rcases List.mem_append.mp hentry' with hentry' | hcleared
    · rcases List.mem_append.mp hentry' with hevent | hdropped
      · exact List.mem_append_left _ (hall entry' (List.mem_cons_of_mem _ hevent))
      · exact List.mem_append_left _ (List.mem_append_right _ (List.mem_append_right _ hdropped))
    · exact List.mem_append_right _ hcleared
  · refine ⟨entry, ?_, hname⟩
    rw [← List.append_assoc]
    exact List.mem_append_left _ (hall entry List.mem_cons_self)

theorem brought_clear {page : RunsPage} {id run run' : String} (h : Brought page id run) :
    Brought (page.clear run') id run := by
  obtain ⟨entry, hentry, hname⟩ := h
  refine ⟨entry, ?_, hname⟩
  simp only [RunsPage.clear, List.mem_append, List.mem_filter, decide_eq_true_eq] at hentry ⊢
  tauto

theorem brought_arrive {page : RunsPage} {response : Response} {uuid : ℕ → String}
    {now id run : String} (h : Brought page id run) :
    Brought (page.arrive response uuid now) id run := by
  rw [RunsPage.arrive]
  split_ifs <;> exact h

theorem rows_effect {e : EventLog.Call c} {now : ℚ} {result : e.Result} {u u' : EventLog.World c}
    (h : e.effect i u now = some (result, u')) : ∀ row ∈ u'.table.rows, row ∈ u.table.rows ∨
      ∃ event, e = .insert event ∧ event.eventId = row.eventId ∧ event.resource = row.resource := by
  cases e with
  | insert event =>
    obtain ⟨w, hw, heq⟩ := Option.map_eq_some_iff.mp h
    obtain ⟨-, rfl⟩ := Prod.mk.inj heq
    rw [EventLog.World.insert] at hw
    split_ifs at hw
    obtain rfl := Option.some.inj hw
    intro row hrow
    rcases List.mem_append.mp hrow with hrow | hrow
    · exact .inl hrow
    · rw [List.mem_singleton.mp hrow]
      exact .inr ⟨event, rfl, rfl, rfl⟩
  | sweepDue =>
    rw [EventLog.Call.effect] at h
    split_ifs at h
    · obtain ⟨-, rfl⟩ := Prod.mk.inj (Option.some.inj h)
      exact fun _ ↦ .inl
    · obtain ⟨-, rfl⟩ := Prod.mk.inj (Option.some.inj h)
      exact fun _ ↦ .inl
  | count | oldest | expired =>
    obtain ⟨-, rfl⟩ := Prod.mk.inj (Option.some.inj h)
    exact fun _ ↦ .inl
  | remove | removeExpired | forget =>
    obtain ⟨-, rfl⟩ := Prod.mk.inj (Option.some.inj h)
    exact fun _ hrow ↦ .inl (List.mem_of_mem_filter hrow)

theorem passes_log {e : EventLog.Call c} {a : EventLog.Answer} {r : e.Ret} {log : EventLog.World c}
    (h : e.exec i v.log a = some (r, log)) :
    Passes v { v with log := log, unsent := recorded i e r ++ v.unsent } := by
  refine ⟨le_rfl, fun _ _ _ ↦ id, fun _ _ ↦ id, fun row hrow ↦ ?_, fun p q _ _ _ id run _ h ↦ ?_⟩
  · rcases EventLog.exec_cases h with ⟨rfl, rfl⟩ | ⟨result, rfl, heffect⟩
    · exact .inl hrow
    · rcases rows_effect heffect row hrow with hrow | ⟨event, rfl, hname, hresource⟩
      · exact .inl hrow
      · exact .inr ⟨(i, event), List.mem_cons_self, hname, hresource⟩
  · refine h.imp_left ?_
    rintro ⟨x, hx, hname⟩
    exact ⟨x, List.mem_append_right _ hx, hname⟩

theorem passes_handOver (hv : Sound requests v) (source : Source) (running : Bool)
    (event : Event c) : Passes v (v.handOver i source running event) := by
  refine ⟨le_rfl, fun _ _ _ ↦ id, fun _ _ ↦ id, fun _ ↦ .inl, fun p q _ hstream hq id run _ h ↦ ?_⟩
  have hpending : ∀ x ∈ v.pending, x ∈ (v.handOver i source running event).pending := by
    intro x hx
    change x ∈ if _ then _ else _
    split_ifs
    · exact List.mem_append_left _ hx
    · exact hx
  rcases h with ⟨x, hx, hname⟩ | ⟨x, hx, hname⟩ | h
  · -- it is handed over now, or not yet
    by_cases hnow : source = .deployments ∧ x.1 = i ∧ x.2.eventId = event.eventId ∧
        x.2.resource = event.resource
    · obtain ⟨rfl, rfl, hid, hresource⟩ := hnow
      obtain ⟨stream, hstream', hsource, -⟩ := hv.pages p q hstream
      obtain ⟨stream', hstream'', hregistered, -⟩ := hv.listens q hq
      obtain rfl := Option.some.inj (hstream'.symm.trans hstream'')
      rw [hsource] at hregistered
      refine .inr (.inl ⟨(x.1, event), ?_, hid ▸ hname.1, hresource ▸ hname.2⟩)
      change _ ∈ if _ then _ else _
      rw [hregistered, Bool.or_true, if_pos rfl]
      exact List.mem_append_right _ (List.mem_singleton_self _)
    · refine .inl ⟨x, ?_, hname⟩
      change x ∈ if _ then _ else _
      split_ifs with hsource
      · exact List.mem_filter.mpr ⟨hx, decide_eq_true fun h ↦ hnow ⟨hsource, h⟩⟩
      · exact hx
  · exact .inr (.inl ⟨x, hpending x hx, hname⟩)
  · exact .inr (.inr h)

theorem passes_subscribe (source : Source) (page : Option ℕ) :
    Passes v (v.subscribe source page) := by
  refine ⟨Nat.le_succ _, fun p q hq h ↦ ?_, fun q hq h ↦ ?_, fun _ ↦ .inl,
    fun p q hq _ _ id run _ h ↦ ?_⟩
  · exact (stream_attach h).resolve_left fun h ↦ hq.ne h.2
  · exact (List.mem_append.mp h).resolve_right fun h ↦ hq.ne (List.mem_singleton.mp h)
  · rw [Reaching]
    refine h.imp_right (Or.imp_right (Or.imp ?_ ?_))
    · simp only [World.subscribe, Function.update_of_ne hq.ne]
      exact fun h ↦ h
    · have hpage : ∀ page, Brought (attach v.pages v.created page p) id run ↔
          Brought (v.pages p) id run := by
        rintro (_ | p')
        · rfl
        · rw [attach, Function.update_apply]
          split_ifs with hp
          · rw [hp]
            rfl
          · rfl
      exact (hpage page).mpr

theorem passes_emit {k : ℕ} (hv : Sound requests v) (h : v.emit k = some w) : Passes v w := by
  obtain ⟨x, hx, rfl⟩ := Option.map_eq_some_iff.mp h
  obtain ⟨hk, rfl⟩ := List.getElem?_eq_some_iff.mp hx
  refine ⟨le_rfl, fun _ _ _ ↦ id, fun _ _ ↦ id, fun _ ↦ .inl, fun p q _ _ hq id run _ h ↦ ?_⟩
  have hqueue : putAll v.subscribers v.queues (toDict v.pending[k].2) q =
      v.queues q ++ [toDict v.pending[k].2] := by rw [putAll_apply hv.nodup, if_pos hq]
  rcases h with h | ⟨x, hx, hname⟩ | ⟨data, hdata, hname⟩ | h
  · exact .inl h
  · rcases List.mem_cons.mp ((List.getElem_cons_eraseIdx_perm hk).mem_iff.mpr hx) with rfl | hx
    · refine .inr (.inr (.inl ⟨toDict v.pending[k].2, ?_, hname⟩))
      change _ ∈ putAll v.subscribers v.queues _ q
      rw [hqueue]
      exact List.mem_append_right _ (List.mem_singleton_self _)
    · exact .inr (.inl ⟨x, hx, hname⟩)
  · refine .inr (.inr (.inl ⟨data, ?_, hname⟩))
    change _ ∈ putAll v.subscribers v.queues _ q
    rw [hqueue]
    exact List.mem_append_left _ hdata
  · exact .inr (.inr (.inr h))

theorem brought_deliver {q p : ℕ} {stream : Stream} {data : Frame} {uuid now id run : String}
    (h : Brought (v.pages p) id run) :
    Brought (deliver v.pages q stream data uuid now p) id run := by
  rw [deliver]
  split_ifs
  · rcases stream.page with _ | p'
    · exact h
    · simp only [receive]
      split_ifs
      · rw [Function.update_apply]
        split_ifs with hp
        · exact brought_onMessage (.inl (hp ▸ h))
        · exact h
      · exact h
  · exact h

theorem passes_get {q : ℕ} {uuid now : String} (hv : Sound requests v)
    (h : v.get q uuid now = some w) : Passes v w := by
  rw [World.get] at h
  split at h
  case h_2 => cases h
  next stream data rest hstream hqueue =>
    split_ifs at h
    obtain rfl := Option.some.inj h
    refine ⟨le_rfl, fun p q' _ h ↦ stream_deliver.symm.trans h, fun _ _ ↦ id, fun _ ↦ .inl,
      fun p q' _ hpage _ id run hid h ↦ ?_⟩
    refine h.imp_right (Or.imp_right ?_)
    rintro (⟨data', hdata', hname⟩ | h)
    · rcases eq_or_ne q' q with rfl | hne
      · rw [hqueue] at hdata'
        rcases List.mem_cons.mp hdata' with rfl | hdata'
        · -- the page gets what its stream takes
          obtain ⟨stream', hstream', hsource, hp⟩ := hv.pages p q' hpage
          obtain rfl := Option.some.inj (hstream.symm.trans hstream')
          refine .inr ?_
          change Brought (deliver v.pages q' stream data' uuid now p) id run
          rw [deliver, if_pos (by rw [Source.wants, hsource]; rfl), hp, receive, if_pos hpage,
            Function.update_self]
          refine brought_onMessage (.inr ⟨?_, hname.2⟩)
          rw [eventFromFrame, orElse, if_neg (hname.1 ▸ hid)]
          exact hname.1
        · refine .inl ⟨data', ?_, hname⟩
          change _ ∈ Function.update v.queues q' rest q'
          rwa [Function.update_self]
      · refine .inl ⟨data', ?_, hname⟩
        change _ ∈ Function.update v.queues q rest q'
        rwa [Function.update_of_ne hne]
    · exact .inr (brought_deliver h)

theorem passes_finish (q : ℕ) (cancelled : Bool) : Passes v (v.finish q cancelled) := by
  refine ⟨le_rfl, fun _ _ _ ↦ id, fun q' _ hq' ↦ ?_, fun _ ↦ .inl, fun _ _ _ _ _ _ _ _ ↦ id⟩
  change q' ∈ if _ then _ else _ at hq'
  split_ifs at hq'
  · exact List.mem_of_mem_erase hq'
  · exact hq'

/-- **One call.** -/
theorem passes_of_exec {e : Call c} {a : Answer} {r : e.Ret} (hv : Sound requests v)
    (h : Call.exec i v e a = some (r, w)) : Passes v w := by
  cases e with
  | log e =>
    obtain ⟨⟨r', log⟩, hr, heq⟩ := Option.map_eq_some_iff.mp h
    obtain ⟨rfl, rfl⟩ := Prod.mk.inj heq
    exact passes_log hr
  | handOver source running event =>
    obtain ⟨-, rfl⟩ := Prod.mk.inj (Option.some.inj h)
    exact passes_handOver hv source running event
  | register source =>
    obtain ⟨-, rfl⟩ := Prod.mk.inj (Option.some.inj h)
    exact passes_of_pages rfl rfl rfl rfl rfl rfl (fun _ _ ↦ id) fun _ _ _ ↦ id
  | subscribe source page =>
    obtain ⟨-, rfl⟩ := Prod.mk.inj (Option.some.inj h)
    exact passes_subscribe source page
  | emit =>
    obtain ⟨w', hw', heq⟩ := Option.map_eq_some_iff.mp h
    obtain ⟨-, rfl⟩ := Prod.mk.inj heq
    exact passes_emit hv hw'
  | get q =>
    obtain ⟨w', hw', heq⟩ := Option.map_eq_some_iff.mp h
    obtain ⟨-, rfl⟩ := Prod.mk.inj heq
    exact passes_get hv hw'
  | finish q cancelled =>
    obtain ⟨-, rfl⟩ := Prod.mk.inj (Option.some.inj h)
    exact passes_finish q cancelled
  | disconnect p =>
    obtain ⟨-, rfl⟩ := Prod.mk.inj (Option.some.inj h)
    exact passes_onPage p _ (fun _ _ h ↦ by cases h) fun _ _ _ ↦ id
  | expand p run =>
    obtain ⟨-, rfl⟩ := Prod.mk.inj (Option.some.inj h)
    exact passes_onPage p _ (fun _ _ ↦ id) fun _ _ _ ↦ id
  | clear p run =>
    obtain ⟨-, rfl⟩ := Prod.mk.inj (Option.some.inj h)
    exact passes_onPage p _ (fun _ _ ↦ id) fun _ _ _ ↦ brought_clear
  | read p run =>
    obtain ⟨-, rfl⟩ := Prod.mk.inj (Option.some.inj h)
    split_ifs
    · exact passes_of_pages rfl rfl rfl rfl rfl rfl (fun _ _ ↦ id) fun _ _ _ ↦ id
    · exact passes_of_pages rfl rfl rfl rfl rfl rfl (fun _ _ ↦ id) fun _ _ _ ↦ id
  | arrive =>
    obtain ⟨w', hw', heq⟩ := Option.map_eq_some_iff.mp h
    obtain ⟨-, rfl⟩ := Prod.mk.inj heq
    obtain ⟨response, -, rfl⟩ := Option.map_eq_some_iff.mp hw'
    exact passes_of_pages rfl rfl rfl rfl rfl rfl
      (fun _ _ ↦ stream_onPage fun _ h ↦ stream_arrive.symm.trans h) fun _ _ _ ↦
        brought_onPage (f := fun page ↦ page.arrive response a.uuid a.now) fun _ ↦ brought_arrive

end

/-! ## The histories of the pages -/

/-- The stored events are the newest of what was held, and of that run. -/
structure Stores (run : String) (held : List Frame) (events : List Entry) : Prop where
  events : ∃ (uuid : ℕ → String) (now : String),
    events = (held.take eventHistoryLimit).mapIdx fun k frame ↦ eventFromFrame (uuid k) now frame
  resource : ∀ frame ∈ held, frame.resource = run

section
variable {run : String} {held : List Frame} {events : List Entry}

theorem Stores.frame (h : Stores run held events) {entry : Entry} (hentry : entry ∈ events) :
    ∃ uuid now, ∃ frame ∈ held, entry = eventFromFrame uuid now frame := by
  obtain ⟨⟨uuid, now, rfl⟩, -⟩ := h
  obtain ⟨k, hk, rfl⟩ := List.mem_mapIdx.mp hentry
  exact ⟨uuid k, now, _, List.mem_of_mem_take (List.getElem_mem hk), rfl⟩

/-- What was held is stored, unless it was beyond the page of the history. -/
theorem Stores.shown_or_drop (h : Stores run held events) {frame : Frame} (hframe : frame ∈ held)
    (hid : frame.eventId ≠ "") : (∃ entry ∈ events, entry.eventId = frame.eventId) ∨
      frame ∈ held.drop eventHistoryLimit := by
  obtain ⟨⟨uuid, now, rfl⟩, -⟩ := h
  rw [← List.take_append_drop eventHistoryLimit held] at hframe
  refine (List.mem_append.mp hframe).imp_left fun hframe ↦ ?_
  obtain ⟨k, hk, rfl⟩ := List.getElem_of_mem hframe
  refine ⟨_, List.mem_mapIdx.mpr ⟨k, hk, rfl⟩, ?_⟩
  rw [eventFromFrame, orElse, if_neg hid]

end

/-- What was read for a page, if its stream was open then, lacks only events on the way. -/
def ReadOf (w : World c) (p : ℕ) (run : String) (held : List Frame) (stream : Option ℕ) : Prop :=
  ∀ q, stream = some q → q < w.created ∧ Covered w p run held q

theorem ReadOf.passes {v w : World c} (h : Passes v w) {p : ℕ} {run : String} {held : List Frame}
    {stream : Option ℕ} (hv : ReadOf v p run held stream) : ReadOf w p run held stream := by
  intro q hq
  obtain ⟨hlt, hcovered⟩ := hv q hq
  exact ⟨hlt.trans_le h.created, hcovered.passes h hlt⟩

/-- An entry of a frame that was broadcast. -/
def Broadcasted (w : World c) (entry : Entry) : Prop :=
  ∃ uuid now, ∃ data ∈ w.broadcasts, entry = eventFromFrame uuid now data

structure Shows (w : World c) : Prop where
  responses : ∀ x ∈ w.responses, ReadOf w x.page x.run x.held x.stream ∧
    x.body.events = x.held.take eventHistoryLimit ∧ ∀ frame ∈ x.held, frame.resource = x.run
  histories : ∀ p loaded, (w.pages p).history = some loaded →
    ReadOf w p loaded.id loaded.held loaded.stream ∧ Stores loaded.id loaded.held loaded.events
  live : ∀ p, ∀ entry ∈ (w.pages p).events, Broadcasted w entry

section
variable {requests : ℕ → Request c} {i : ℕ} {v w : World c}

theorem shows_of_passes (hv : Shows v) (h : Passes v w)
    (hbroadcasts : ∀ data ∈ v.broadcasts, data ∈ w.broadcasts)
    (hresponses : ∀ x ∈ w.responses, x ∈ v.responses ∨
      ReadOf w x.page x.run x.held x.stream ∧ x.body.events = x.held.take eventHistoryLimit ∧
        ∀ frame ∈ x.held, frame.resource = x.run)
    (hhistories : ∀ p loaded, (w.pages p).history = some loaded →
      (v.pages p).history = some loaded ∨ ReadOf w p loaded.id loaded.held loaded.stream ∧
        Stores loaded.id loaded.held loaded.events)
    (hlive : ∀ p, ∀ entry ∈ (w.pages p).events, entry ∈ (v.pages p).events ∨
      Broadcasted w entry) : Shows w := by
  refine ⟨fun x hx ↦ ?_, fun p loaded hloaded ↦ ?_, fun p entry hentry ↦ ?_⟩
  · rcases hresponses x hx with hx | hx
    · obtain ⟨hread, hbody⟩ := hv.responses x hx
      exact ⟨hread.passes h, hbody⟩
    · exact hx
  · rcases hhistories p loaded hloaded with hloaded | hloaded
    · obtain ⟨hread, hstores⟩ := hv.histories p loaded hloaded
      exact ⟨hread.passes h, hstores⟩
    · exact hloaded
  · rcases hlive p entry hentry with hentry | hentry
    · obtain ⟨uuid, now, data, hdata, heq⟩ := hv.live p entry hentry
      exact ⟨uuid, now, data, hbroadcasts data hdata, heq⟩
    · exact hentry

/-- A call that leaves the pages their events and histories. -/
theorem shows_of_same (hv : Shows v) (h : Passes v w)
    (hbroadcasts : ∀ data ∈ v.broadcasts, data ∈ w.broadcasts)
    (hresponses : w.responses = v.responses)
    (hpages : ∀ p, (w.pages p).events = (v.pages p).events ∧
      (w.pages p).history = (v.pages p).history) : Shows w :=
  shows_of_passes hv h hbroadcasts (fun _ hx ↦ .inl (hresponses ▸ hx))
    (fun p _ hloaded ↦ .inl ((hpages p).2 ▸ hloaded)) fun p _ hentry ↦ .inl ((hpages p).1 ▸ hentry)

/-- A call that changes one page. -/
theorem shows_onPage {p : ℕ} {f : RunsPage → RunsPage} (hv : Shows v) (h : Passes v (v.onPage p f))
    (hevents : ∀ entry ∈ (f (v.pages p)).events, entry ∈ (v.pages p).events)
    (hhistory : ∀ loaded, (f (v.pages p)).history = some loaded →
      (v.pages p).history = some loaded ∨
        ReadOf (v.onPage p f) p loaded.id loaded.held loaded.stream ∧
          Stores loaded.id loaded.held loaded.events) : Shows (v.onPage p f) := by
  have hpage : ∀ p', (v.onPage p f).pages p' = if p' = p then f (v.pages p) else v.pages p' :=
    fun p' ↦ Function.update_apply ..
  refine shows_of_passes hv h (fun _ ↦ id) (fun _ ↦ .inl) (fun p' loaded hloaded ↦ ?_)
    fun p' entry hentry ↦ ?_
  · rw [hpage] at hloaded
    split_ifs at hloaded with hp
    · rw [hp]
      exact hhistory loaded hloaded
    · exact .inl hloaded
  · rw [hpage] at hentry
    split_ifs at hentry with hp
    · rw [hp]
      exact .inl (hevents entry hentry)
    · exact .inl hentry

theorem events_attach {pages : ℕ → RunsPage} {q p : ℕ} {page : Option ℕ} :
    (attach pages q page p).events = (pages p).events ∧
      (attach pages q page p).history = (pages p).history := by
  rcases page with _ | p'
  · exact ⟨rfl, rfl⟩
  · rw [attach, Function.update_apply]
    split_ifs with hp
    · rw [hp]
      exact ⟨rfl, rfl⟩
    · exact ⟨rfl, rfl⟩

theorem history_deliver {pages : ℕ → RunsPage} {q p : ℕ} {stream : Stream} {data : Frame}
    {uuid now : String} : (deliver pages q stream data uuid now p).history = (pages p).history := by
  rw [deliver]
  split_ifs
  · rcases stream.page with _ | p'
    · rfl
    · simp only [receive]
      split_ifs
      · rw [Function.update_apply]
        split_ifs with hp
        · rw [hp]
          rfl
        · rfl
      · rfl
  · rfl

theorem mem_events_deliver {pages : ℕ → RunsPage} {q p : ℕ} {stream : Stream} {data : Frame}
    {uuid now : String} {entry : Entry}
    (h : entry ∈ (deliver pages q stream data uuid now p).events) :
    entry ∈ (pages p).events ∨ entry = eventFromFrame uuid now data := by
  rw [deliver] at h
  split_ifs at h
  · rcases hpage : stream.page with _ | p'
    · rw [hpage] at h
      exact .inl h
    · simp only [hpage, receive] at h
      split_ifs at h
      · rw [Function.update_apply] at h
        split_ifs at h with hp
        · rcases List.mem_cons.mp (List.mem_of_mem_take h) with rfl | h
          · exact .inr rfl
          · exact .inl (hp ▸ h)
        · exact .inl h
      · exact .inl h
  · exact .inl h

theorem shows_get {q : ℕ} {uuid now : String} (hs : Sound requests v) (hv : Shows v)
    (h : v.get q uuid now = some w) : Shows w := by
  have hpasses := passes_get hs h
  rw [World.get] at h
  split at h
  case h_2 => cases h
  next stream data rest hstream hqueue =>
    split_ifs at h
    obtain rfl := Option.some.inj h
    have hdata : data ∈ v.broadcasts := by
      have htaken := (hs.follows q stream hstream).taken
      rw [hqueue] at htaken
      exact List.mem_of_mem_drop (htaken.subset (List.mem_append_right _ List.mem_cons_self))
    refine shows_of_passes hv hpasses (fun _ ↦ id) (fun _ ↦ .inl)
      (fun p _ hloaded ↦ .inl (history_deliver.symm.trans hloaded)) fun p entry hentry ↦ ?_
    exact (mem_events_deliver hentry).imp_right fun heq ↦ ⟨uuid, now, data, hdata, heq⟩

theorem events_history (table : EventLog.Table c) (run : String) :
    (history table run eventHistoryLimit none).events =
      ((table.newest run).map frameOf).take eventHistoryLimit := by
  have hcapped : EventLog.capped eventHistoryLimit = eventHistoryLimit := by decide
  rw [history, hcapped, EventLog.cutoff, Paging.page, Paging.below_none, List.map_take]

/-- What is read covers the run. -/
theorem shows_read (hs : Sound requests v) (hv : Shows v) (p : ℕ) (run : String) :
    Shows (v.read p run) := by
  have hpasses : Passes v (v.read p run) :=
    passes_of_pages rfl rfl rfl rfl rfl rfl (fun _ _ ↦ id) fun _ _ _ ↦ id
  refine shows_of_passes hv hpasses (fun _ ↦ id) (fun x hx ↦ ?_) (fun _ _ ↦ .inl) fun _ _ ↦ .inl
  rcases List.mem_append.mp hx with hx | hx
  · exact .inl hx
  · obtain rfl := List.mem_singleton.mp hx
    refine .inr ⟨fun q hq ↦ ⟨?_, fun _ _ row hrow _ ↦ .inl ?_⟩, ?_, fun frame hframe ↦ ?_⟩
    · obtain ⟨stream, hstream, -⟩ := hs.pages p q hq
      exact hs.created q stream hstream
    · exact List.mem_map.mpr ⟨frameOf row, List.mem_map_of_mem (List.mem_reverse.mpr hrow), rfl⟩
    · exact events_history v.log.table run
    · obtain ⟨row, hrow, rfl⟩ := List.mem_map.mp hframe
      exact (EventLog.Table.mem_held.mp (List.mem_reverse.mp hrow)).2

theorem shows_arrive {k : ℕ} {uuid : ℕ → String} {now : String} (hpasses : Passes v w)
    (hv : Shows v) (h : v.arrive k uuid now = some w) : Shows w := by
  obtain ⟨response, hresponse, rfl⟩ := Option.map_eq_some_iff.mp h
  obtain ⟨hread, hbody, hresource⟩ := hv.responses response (List.mem_of_getElem? hresponse)
  have hpage : ∀ p, (v.onPage response.page fun page ↦ page.arrive response uuid now).pages p =
      if p = response.page then (v.pages response.page).arrive response uuid now else v.pages p :=
    fun p ↦ Function.update_apply ..
  refine shows_of_passes hv hpasses (fun _ ↦ id) (fun x hx ↦ .inl (List.mem_of_mem_eraseIdx hx))
    (fun p loaded hloaded ↦ ?_) fun p entry hentry ↦ ?_
  · rw [hpage] at hloaded
    split_ifs at hloaded with hp
    · rw [RunsPage.arrive] at hloaded
      split_ifs at hloaded
      · obtain rfl := Option.some.inj hloaded
        rw [hp]
        exact .inr ⟨hread.passes hpasses, ⟨uuid, now, by rw [hbody]⟩, hresource⟩
      · exact .inl (hp ▸ hloaded)
    · exact .inl hloaded
  · rw [hpage] at hentry
    split_ifs at hentry with hp
    · rw [RunsPage.arrive] at hentry
      rw [hp]
      split_ifs at hentry
      · exact .inl hentry
      · exact .inl hentry
    · exact .inl hentry

/-- **One call.** -/
theorem shows_of_exec {e : Call c} {a : Answer} {r : e.Ret} (hs : Sound requests v) (hv : Shows v)
    (h : Call.exec i v e a = some (r, w)) : Shows w := by
  have hpasses := passes_of_exec hs h
  cases e with
  | log e =>
    obtain ⟨⟨r', log⟩, -, heq⟩ := Option.map_eq_some_iff.mp h
    obtain ⟨-, rfl⟩ := Prod.mk.inj heq
    exact shows_of_same hv hpasses (fun _ ↦ id) rfl fun _ ↦ ⟨rfl, rfl⟩
  | handOver | register | finish =>
    obtain ⟨-, rfl⟩ := Prod.mk.inj (Option.some.inj h)
    exact shows_of_same hv hpasses (fun _ ↦ id) rfl fun _ ↦ ⟨rfl, rfl⟩
  | subscribe source page =>
    obtain ⟨-, rfl⟩ := Prod.mk.inj (Option.some.inj h)
    exact shows_of_same hv hpasses (fun _ ↦ id) rfl fun _ ↦ events_attach
  | emit =>
    obtain ⟨w', hw', heq⟩ := Option.map_eq_some_iff.mp h
    obtain ⟨-, rfl⟩ := Prod.mk.inj heq
    obtain ⟨x, -, rfl⟩ := Option.map_eq_some_iff.mp hw'
    refine shows_of_same hv hpasses (fun data hdata ↦ ?_) rfl fun _ ↦ ⟨rfl, rfl⟩
    change data ∈ (v.emitted ++ [x]).map _
    rw [List.map_append]
    exact List.mem_append_left _ hdata
  | get q =>
    obtain ⟨w', hw', heq⟩ := Option.map_eq_some_iff.mp h
    obtain ⟨-, rfl⟩ := Prod.mk.inj heq
    exact shows_get hs hv hw'
  | disconnect p =>
    obtain ⟨-, rfl⟩ := Prod.mk.inj (Option.some.inj h)
    exact shows_onPage hv hpasses (fun _ ↦ id) fun _ ↦ .inl
  | expand p run =>
    obtain ⟨-, rfl⟩ := Prod.mk.inj (Option.some.inj h)
    exact shows_onPage hv hpasses (fun _ ↦ id) fun _ h ↦ by cases h
  | clear p run =>
    obtain ⟨-, rfl⟩ := Prod.mk.inj (Option.some.inj h)
    refine shows_onPage hv hpasses (fun _ ↦ List.mem_of_mem_filter) fun loaded h ↦ .inr ?_
    obtain rfl := Option.some.inj h
    exact ⟨fun q hq ↦ (by cases hq), ⟨⟨fun _ ↦ "", "", rfl⟩, fun _ h ↦ by cases h⟩⟩
  | read p run =>
    obtain ⟨-, rfl⟩ := Prod.mk.inj (Option.some.inj h)
    split_ifs
    · exact shows_read hs hv p run
    · exact hv
  | arrive =>
    obtain ⟨w', hw', heq⟩ := Option.map_eq_some_iff.mp h
    obtain ⟨-, rfl⟩ := Prod.mk.inj heq
    exact shows_arrive hpasses hv hw'

end

/-! ## Whole runs -/

/-- An event that is held has not come to the page of a stream yet: its publisher has not ended, the
loop has yet to broadcast it, or it is in the queue of the stream. -/
def OnItsWay (requests : ℕ → Request c) (t : Machine c) (q : ℕ) (row : Row) : Prop :=
  (∃ i source running event, requests i = .publish source running event ∧
    event.eventId = row.eventId ∧ event.resource = row.resource ∧ ∀ a, t.pool i ≠ .ret a) ∨
    (∃ x ∈ t.world.pending, x.2.eventId = row.eventId ∧ x.2.resource = row.resource) ∨
      ∃ data ∈ t.world.queues q, data.eventId = row.eventId ∧ data.resource = row.resource

section
variable {requests : ℕ → Request c} {t : Machine c}

theorem shows_of_reachable (h : (system requests).Reachable Guard.free t) : Shows t.world := by
  obtain ⟨s, hs, hsteps⟩ := h
  induction hsteps with
  | refl =>
    obtain ⟨-, log, hworld⟩ := hs
    rw [hworld]
    exact ⟨fun _ h ↦ (by cases h), fun _ _ h ↦ (by cases h), fun _ _ h ↦ by cases h⟩
  | tail hsteps _ hnext ih =>
    obtain ⟨e, k, r, -, ⟨-, a, hexec⟩, -⟩ := Threads.next_cases (g := fun _ _ _ ↦ True) (by
      unfold Threads.stepGuard
      split <;> trivial) hnext
    exact shows_of_exec (sound_of_reachable ⟨s, hs, hsteps⟩) ih hexec

end

/-! ## One event -/

end SparkPulse.Timeline
