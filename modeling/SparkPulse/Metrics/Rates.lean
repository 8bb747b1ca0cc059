import Mathlib.Algebra.Order.Nonneg.Ring
import Mathlib.Data.List.Perm.Basic
import Mathlib.Data.NNRat.Defs
import Mathlib.Tactic.Ring
import SparkPulse.Metrics.Readings

/-!
# Rates across restarts

A deployment is scraped again and again while its counters grow or restart. A reset is noticed on
the sum over the series of a counter, so the restart of one series is missed when the others have
grown by more than it has lost.
-/

namespace SparkPulse.Metrics

variable {L : Type}

/-! ## What is scraped -/

/-- A series: the name of its metric, and its labels. -/
abbrev Key (L : Type) := String × L

def Series.key {V : Type} (s : Series L V) : Key L := (s.name, s.labels)

/-- What happened to a series of a counter since the last scrape. -/
inductive Change
  | grew (amount : ℚ≥0)
  /-- It restarted from zero, and has counted since. -/
  | restarted (count : ℚ≥0)

/-- Where a series stands after a change. -/
def Change.count (before : ℚ) : Change → ℚ
  | grew amount => before + amount
  | restarted count => count

def Change.amount : Change → ℚ
  | grew amount => amount
  | restarted _ => 0

def Change.isRestart : Change → Bool
  | grew _ => false
  | restarted _ => true

/-- The names of the counters. -/
def counterNames : List String :=
  allMetrics.flatMap fun m ↦ m.promptTokens ++ m.generationTokens ++ m.preemptions

/-- What an endpoint answers: the series that are published, each once, and the values of those that
count nothing. -/
structure Answer (L : Type) where
  t : ℚ
  keys : List (Key L)
  gauge : Key L → ℚ
  nodup : keys.Nodup

/-- What happens up to the next scrape, and its answer, if it is not missing. -/
structure Event (L : Type) where
  change : Key L → Change
  answer : Option (Answer L)

/-- An answer, and where the counters stand. -/
structure Scrape (L : Type) extends Answer L where
  count : Key L → ℚ

/-- The series of a scrape, parsed. -/
def Scrape.families (s : Scrape L) : List (Series L ℚ) :=
  s.keys.map fun k ↦ ⟨k.1, k.2, if k.1 ∈ counterNames then s.count k else s.gauge k⟩

/-- The series of a counter, in a scrape. -/
def Scrape.counted (s : Scrape L) (engine : Option String) (c : Counter) : List (Series L ℚ) :=
  Metrics.counted s.families engine c

/-! ## Sampling -/

/-- What was reported for an interval, and what happened in it. -/
structure Report (L : Type) where
  before : Scrape L
  after : Scrape L
  /-- By how much each series grew. -/
  grown : Key L → ℚ
  /-- Whether each series restarted. -/
  restarted : Key L → Bool
  reading : Reading

/-- A deployment and its ring, and what happened since the last reading. -/
structure Deployment (L : Type) where
  count : Key L → ℚ
  ring : MetricsRing := .empty
  last : Option (Scrape L) := none
  grown : Key L → ℚ := fun _ ↦ 0
  restarted : Key L → Bool := fun _ ↦ false
  reports : List (Report L) := []

/-- The counters grow and restart. -/
def Deployment.change (d : Deployment L) (change : Key L → Change) : Deployment L :=
  { d with
    count := fun k ↦ (change k).count (d.count k)
    grown := fun k ↦ d.grown k + (change k).amount
    restarted := fun k ↦ d.restarted k || (change k).isRestart }

/-- A reading is appended to the ring. -/
def Deployment.append (d : Deployment L) (scrape : Scrape L) (reading : Reading) : Deployment L :=
  { count := d.count
    ring := d.ring.append reading
    last := some scrape
    reports := match d.last with
      | none => d.reports
      | some before =>
        d.reports ++ [⟨before, scrape, d.grown, d.restarted, d.ring.stamp reading⟩] }

/-- `sample_deployment`, from the answer on -/
def sampleDeployment (engine : Option String) (d : Deployment L) :
    Option (Answer L) → Deployment L
  | none => d
  | some answer =>
    let scrape : Scrape L := ⟨answer, d.count⟩
    let reading := readFamilies scrape.families engine answer.t
    if isEmpty reading then d else d.append scrape reading

/-- A deployment is sampled again and again. -/
def sampled (engine : Option String) (count : Key L → ℚ) (events : List (Event L)) :
    Deployment L :=
  events.foldl (fun d e ↦ sampleDeployment engine (d.change e.change) e.answer) { count := count }

/-! ## What a rate should be -/

/-- The sum over several series. -/
def added (f : Key L → ℚ) : List (Key L) → ℚ
  | [] => 0
  | k :: ks => f k + added f ks

namespace Report

variable (r : Report L) (engine : Option String) (c : Counter)

def keysBefore : List (Key L) := (r.before.counted engine c).map Series.key

def keysAfter : List (Key L) := (r.after.counted engine c).map Series.key

/-- No series of a counter restarted, appeared or vanished. -/
def Steady : Prop :=
  (∀ k, k ∈ r.keysBefore engine c ↔ k ∈ r.keysAfter engine c) ∧
    ∀ k ∈ r.keysAfter engine c, r.restarted k = false

/-- A series of a counter restarted. -/
def Restarts : Prop :=
  ∃ k ∈ r.keysBefore engine c ++ r.keysAfter engine c, r.restarted k = true

/-- No rate is invented. -/
def Sound : Prop :=
  ∀ c, (r.Steady engine c → ∀ rate, r.reading.perSecond c = some rate →
      rate = added r.grown (r.keysAfter engine c) / (r.after.t - r.before.t)) ∧
    (r.Restarts engine c → r.reading.perSecond c = none ∧ r.reading.counterReset = true)

/-- What is published of a counter is less at the end of the interval. -/
def Drops : Prop :=
  r.before.counted engine c ≠ [] ∧ r.after.counted engine c ≠ [] ∧
    total (r.after.counted engine c) < total (r.before.counted engine c)

/-- A counter is not published at both ends of the interval, or no time has passed. -/
def Unrated : Prop :=
  r.before.counted engine c = [] ∨ r.after.counted engine c = [] ∨ r.after.t ≤ r.before.t

/-- When a series restarts, what is published of some counter gets less; and of its own counter, if
that can have a rate. -/
def Shows : Prop :=
  ∀ c, r.Restarts engine c →
    (∃ c', r.Drops engine c') ∧ (r.Drops engine c ∨ r.Unrated engine c)

instance : Decidable (r.Restarts engine c) :=
  inferInstanceAs (Decidable (∃ k ∈ _, _ = _))

instance : Decidable (r.Drops engine c) :=
  inferInstanceAs (Decidable (_ ≠ _ ∧ _ ≠ _ ∧ _ < _))

instance : Decidable (r.Unrated engine c) :=
  inferInstanceAs (Decidable (_ = _ ∨ _ = _ ∨ _ ≤ _))

end Report

theorem Counter.forall_iff {p : Counter → Prop} :
    (p .promptTokens ∧ p .generationTokens ∧ p .preemptions) ↔ ∀ c, p c := by
  refine ⟨fun ⟨hprompt, hgeneration, hpreemptions⟩ c ↦ ?_, fun h ↦ ⟨h _, h _, h _⟩⟩
  rcases c with _ | _ | _
  · exact hprompt
  · exact hgeneration
  · exact hpreemptions

instance {p : Counter → Prop} [DecidablePred p] : Decidable (∀ c, p c) :=
  decidable_of_iff _ Counter.forall_iff

instance {p : Counter → Prop} [DecidablePred p] : Decidable (∃ c, p c) :=
  decidable_of_iff (¬∀ c, ¬p c) not_forall_not

instance (r : Report L) (engine : Option String) : Decidable (r.Shows engine) :=
  inferInstanceAs (Decidable (∀ c, r.Restarts engine c →
    (∃ c', r.Drops engine c') ∧ (r.Drops engine c ∨ r.Unrated engine c)))

/-! ## One interval -/

section
variable {families : List (Series L ℚ)} {engine : Option String} {c : Counter} {s : Series L ℚ}
  {scrape : Scrape L} {r : Report L}

theorem mem_allMetrics_of_mem_namesFor {names : MetricNames} (h : names ∈ namesFor engine) :
    names ∈ allMetrics := by
  rw [namesFor] at h
  split at h
  · exact h
  next known hknown =>
    rcases List.mem_cons.mp h with rfl | h
    · rw [metricNames] at hknown
      split_ifs at hknown
      all_goals
        obtain rfl := Option.some.inj hknown
        decide
    · exact List.mem_of_mem_filter h

/-- The series of a counter are published under one of its names. -/
theorem counted_eq_family (families : List (Series L ℚ)) (engine : Option String) (c : Counter) :
    counted families engine c = [] ∨
      ∃ name ∈ counterNames, counted families engine c = family families name := by
  rw [counted]
  rcases hnames : namesRead families engine with _ | names
  · exact .inl rfl
  rcases hfirst : firstPresent families (c.names names) with _ | series
  · exact .inl (by rw [Option.bind_some, hfirst, Option.getD_none])
  rw [Option.bind_some, hfirst, Option.getD_some]
  obtain ⟨-, name, hname, rfl⟩ := exists_of_firstPresent hfirst
  refine .inr ⟨name, List.mem_flatMap.mpr ⟨names, ?_, ?_⟩, rfl⟩
  · exact mem_allMetrics_of_mem_namesFor (List.mem_of_find?_eq_some hnames)
  · rcases c with _ | _ | _
    · exact List.mem_append_left _ (List.mem_append_left _ hname)
    · exact List.mem_append_left _ (List.mem_append_right _ hname)
    · exact List.mem_append_right _ hname

/-- A series of a counter is published with what was counted. -/
theorem value_eq_count (hs : s ∈ scrape.counted engine c) : s.value = scrape.count s.key := by
  rcases counted_eq_family scrape.families engine c with hnil | ⟨name, hname, heq⟩
  · rw [Scrape.counted, hnil] at hs
    cases hs
  rw [Scrape.counted, heq, family, List.mem_filter] at hs
  obtain ⟨hmem, hnamed⟩ := hs
  obtain ⟨k, -, rfl⟩ := List.mem_map.mp hmem
  obtain rfl := of_decide_eq_true hnamed
  exact if_pos hname

theorem keys_counted_nodup (scrape : Scrape L) (engine : Option String) (c : Counter) :
    ((scrape.counted engine c).map Series.key).Nodup := by
  rcases counted_eq_family scrape.families engine c with hnil | ⟨name, -, heq⟩
  · rw [Scrape.counted, hnil]
    exact List.nodup_nil
  have hkeys : scrape.families.map Series.key = scrape.keys := by
    rw [Scrape.families, List.map_map]
    exact List.map_id _
  rw [Scrape.counted, heq]
  refine List.Nodup.sublist (List.filter_sublist.map _) ?_
  rw [hkeys]
  exact scrape.nodup

theorem total_eq_added {f : Key L → ℚ} {series : List (Series L ℚ)}
    (h : ∀ s ∈ series, s.value = f s.key) : total series = added f (series.map Series.key) := by
  induction series with
  | nil => rfl
  | cons s series ih =>
    rw [total, List.map_cons, added, h s List.mem_cons_self,
      ih fun s hs ↦ h s (List.mem_cons_of_mem _ hs)]

theorem added_perm {f : Key L → ℚ} {ks ks' : List (Key L)} (h : ks.Perm ks') :
    added f ks = added f ks' := by
  induction h with
  | nil => rfl
  | cons k _ ih => rw [added, added, ih]
  | swap k k' ks =>
    rw [added, added, added, added]
    ring
  | trans _ _ ih ih' => rw [ih, ih']

theorem added_eq_add {f g h : Key L → ℚ} {ks : List (Key L)} (hks : ∀ k ∈ ks, h k = f k + g k) :
    added h ks = added f ks + added g ks := by
  induction ks with
  | nil => simp only [added, add_zero]
  | cons k ks ih =>
    rw [added, added, added, hks k List.mem_cons_self,
      ih fun k hk ↦ hks k (List.mem_cons_of_mem _ hk)]
    ring

/-- In a steady interval, the total of a counter grows by what its series have grown. -/
theorem total_eq_add (hcount : ∀ k, r.restarted k = false →
    r.after.count k = r.before.count k + r.grown k) (hsteady : r.Steady engine c) :
    total (r.after.counted engine c) =
      total (r.before.counted engine c) + added r.grown (r.keysAfter engine c) := by
  obtain ⟨hsame, hno⟩ := hsteady
  have hperm : (r.keysBefore engine c).Perm (r.keysAfter engine c) :=
    (List.perm_ext_iff_of_nodup (keys_counted_nodup _ _ _) (keys_counted_nodup _ _ _)).mpr hsame
  calc total (r.after.counted engine c)
      = added r.after.count (r.keysAfter engine c) := total_eq_added fun _ ↦ value_eq_count
    _ = added r.before.count (r.keysAfter engine c) + added r.grown (r.keysAfter engine c) :=
        added_eq_add fun k hk ↦ hcount k (hno k hk)
    _ = added r.before.count (r.keysBefore engine c) + added r.grown (r.keysAfter engine c) := by
        rw [added_perm hperm]
    _ = total (r.before.counted engine c) + added r.grown (r.keysAfter engine c) := by
        rw [Report.keysBefore, ← total_eq_added fun _ ↦ value_eq_count]

/-- What a reading says of several series. -/
def totalOf (series : List (Series L ℚ)) : Option ℚ :=
  if series = [] then none else some (total series)

/-- The rate of a counter over an interval. -/
def Report.rate (r : Report L) (engine : Option String) (c : Counter) : Option ℚ × Bool :=
  Metrics.rate (totalOf (r.before.counted engine c)) r.before.t
    (totalOf (r.after.counted engine c)) r.after.t

theorem Report.rate_cases (r : Report L) (engine : Option String) (c : Counter) :
    (r.rate engine c = (none, true) ∧ r.Drops engine c) ∨
      (r.rate engine c = (none, false) ∧ ¬r.Drops engine c ∧ r.Unrated engine c) ∨
        (r.rate engine c = (some ((total (r.after.counted engine c) -
            total (r.before.counted engine c)) / (r.after.t - r.before.t)), false) ∧
          ¬r.Drops engine c ∧ ¬r.Unrated engine c) := by
  unfold Report.rate totalOf
  split_ifs with hbefore hafter hafter
  · exact .inr (.inl ⟨rfl, fun h ↦ h.1 hbefore, .inl hbefore⟩)
  · exact .inr (.inl ⟨rfl, fun h ↦ h.1 hbefore, .inl hbefore⟩)
  · exact .inr (.inl ⟨rfl, fun h ↦ h.2.1 hafter, .inr (.inl hafter)⟩)
  rw [Metrics.rate]
  split_ifs with hlt hle
  · exact .inl ⟨rfl, hbefore, hafter, hlt⟩
  · exact .inr (.inl ⟨rfl, fun h ↦ hlt h.2.2, .inr (.inr (sub_nonpos.mp hle))⟩)
  · refine .inr (.inr ⟨rfl, fun h ↦ hlt h.2.2, ?_⟩)
    rintro (h | h | h)
    · exact hbefore h
    · exact hafter h
    · exact hle (sub_nonpos.mpr h)

theorem Report.rate_snd_iff : (r.rate engine c).2 = true ↔ r.Drops engine c := by
  rcases r.rate_cases engine c with ⟨h, hdrops⟩ | ⟨h, hdrops, -⟩ | ⟨h, hdrops, -⟩
  · simp [h, hdrops]
  · simp [h, hdrops]
  · simp [h, hdrops]

theorem Report.rate_fst_eq_none :
    (r.rate engine c).1 = none ↔ r.Drops engine c ∨ r.Unrated engine c := by
  rcases r.rate_cases engine c with ⟨h, hdrops⟩ | ⟨h, hdrops, hun⟩ | ⟨h, hdrops, hun⟩
  · simp [h, hdrops]
  · simp [h, hun]
  · simp [h, hdrops, hun]

/-- What the sampler puts into a report. -/
structure Report.Formed (r : Report L) (engine : Option String) : Prop where
  perSecond : ∀ c, r.reading.perSecond c = (r.rate engine c).1
  counterReset : r.reading.counterReset = true ↔ ∃ c, (r.rate engine c).2 = true
  count : ∀ k, r.restarted k = false → r.after.count k = r.before.count k + r.grown k

/-- **One interval.** Its rates are sound exactly when the restarts show. -/
theorem Report.Formed.sound_iff (h : r.Formed engine) : r.Sound engine ↔ r.Shows engine := by
  have hnone : ∀ c, r.Restarts engine c →
      ((r.reading.perSecond c = none ∧ r.reading.counterReset = true) ↔
        (∃ c', r.Drops engine c') ∧ (r.Drops engine c ∨ r.Unrated engine c)) := by
    intro c _
    rw [h.perSecond, h.counterReset, Report.rate_fst_eq_none, and_comm]
    simp only [Report.rate_snd_iff]
  constructor
  · exact fun hsound c hc ↦ (hnone c hc).mp ((hsound c).2 hc)
  · refine fun hshows c ↦ ⟨fun hsteady rate hrate ↦ ?_, fun hc ↦ (hnone c hc).mpr (hshows c hc)⟩
    rw [h.perSecond] at hrate
    rcases r.rate_cases engine c with ⟨heq, -⟩ | ⟨heq, -⟩ | ⟨heq, -⟩
    · rw [heq] at hrate
      cases hrate
    · rw [heq] at hrate
      cases hrate
    · rw [heq] at hrate
      rw [← Option.some.inj hrate, total_eq_add h.count hsteady, add_sub_cancel_left]

end

/-! ## Every interval -/

/-- What holds between two scrapes. -/
structure Deployment.Sampled (d : Deployment L) (engine : Option String) : Prop where
  ring_none : d.last = none → d.ring.last = none
  ring_some : ∀ s, d.last = some s → ∃ reading, d.ring.last = some reading ∧ reading.t = s.t ∧
    ∀ c, reading.total c = totalOf (s.counted engine c)
  count : ∀ s, d.last = some s → ∀ k, d.restarted k = false → d.count k = s.count k + d.grown k
  formed : ∀ r ∈ d.reports, r.Formed engine

section
variable {engine : Option String} {d : Deployment L} {scrape : Scrape L} {t : ℚ}

theorem sampled_change (change : Key L → Change) (h : d.Sampled engine) :
    (d.change change).Sampled engine := by
  refine ⟨h.ring_none, h.ring_some, fun s hs k hk ↦ ?_, h.formed⟩
  obtain ⟨hearlier, hnow⟩ := Bool.or_eq_false_iff.mp hk
  have hcount := h.count s hs k hearlier
  change (change k).count (d.count k) = s.count k + (d.grown k + (change k).amount)
  rcases hchange : change k with amount | count
  · rw [Change.count, Change.amount, hcount, add_assoc]
  · rw [hchange] at hnow
    cases hnow

theorem total_reading (scrape : Scrape L) (engine : Option String) (c : Counter) :
    (readFamilies scrape.families engine t).total c = totalOf (scrape.counted engine c) :=
  total_readFamilies c

/-- **The step lemma.** A reading is stamped against the scrape before it. -/
theorem sampled_append (hcount : scrape.count = d.count) (h : d.Sampled engine) :
    (d.append scrape (readFamilies scrape.families engine scrape.t)).Sampled engine := by
  have hlast : (d.append scrape (readFamilies scrape.families engine scrape.t)).ring.last =
      some (d.ring.stamp (readFamilies scrape.families engine scrape.t)) :=
    MetricsRing.last_append ..
  refine ⟨fun hnone ↦ (nomatch hnone), fun s hs ↦ ?_, fun s hs k _ ↦ ?_, fun r hr ↦ ?_⟩
  · obtain rfl := Option.some.inj hs
    refine ⟨_, hlast, ?_, fun c ↦ ?_⟩
    · rw [MetricsRing.stamp, t_withRates, readFamilies_t]
    · rw [MetricsRing.stamp, total_withRates, total_reading]
  · obtain rfl := Option.some.inj hs
    exact (congrFun hcount k).symm.trans (add_zero _).symm
  · change r ∈ (match d.last with | none => d.reports | some before => _) at hr
    split at hr
    · exact h.formed r hr
    next before hbefore =>
      rcases List.mem_append.mp hr with hr | hr
      · exact h.formed r hr
      obtain rfl := List.mem_singleton.mp hr
      obtain ⟨previous, hprevious, ht, htotal⟩ := h.ring_some before hbefore
      have hrate : ∀ c, Metrics.rate (previous.total c) previous.t
          ((readFamilies scrape.families engine scrape.t).total c)
          (readFamilies scrape.families engine scrape.t).t = Report.rate
            ⟨before, scrape, d.grown, d.restarted,
              d.ring.stamp (readFamilies scrape.families engine scrape.t)⟩ engine c := by
        intro c
        rw [htotal, ht, total_reading, readFamilies_t, Report.rate]
      refine ⟨fun c ↦ ?_, ?_, fun k hk ↦ ?_⟩
      · rw [← hrate, MetricsRing.stamp, hprevious, perSecond_withRates]
      · rw [MetricsRing.stamp, hprevious, counterReset_withRates]
        exact exists_congr fun c ↦ Iff.of_eq
          (congrArg (fun p : Option ℚ × Bool ↦ p.2 = true) (hrate c))
      · rw [← h.count before hbefore k hk, hcount]

theorem sampled_sampleDeployment (answer : Option (Answer L)) (h : d.Sampled engine) :
    (sampleDeployment engine d answer).Sampled engine := by
  rcases answer with _ | answer
  · exact h
  · rw [sampleDeployment]
    split_ifs
    · exact h
    · exact sampled_append rfl h

/-- The run lemma. -/
theorem sampled_sampled (engine : Option String) (count : Key L → ℚ) (events : List (Event L)) :
    (sampled engine count events).Sampled engine := by
  rw [sampled]
  refine List.foldlRecOn (motive := fun d : Deployment L ↦ d.Sampled engine) events _
    ⟨fun _ ↦ rfl, ?_, ?_, ?_⟩ fun d hd e _ ↦ sampled_sampleDeployment _ (sampled_change _ hd)
  · rintro s ⟨⟩
  · rintro s ⟨⟩
  · rintro r ⟨⟩

end

/-- **The rates of a deployment.** However it is scraped, its rates are sound exactly in the
intervals in which the restarts show. -/
theorem sound_iff_shows (engine : Option String) (count : Key L → ℚ) (events : List (Event L)) :
    ∀ r ∈ (sampled engine count events).reports, (r.Sound engine ↔ r.Shows engine) :=
  fun r hr ↦ ((sampled_sampled engine count events).formed r hr).sound_iff

/-! ## Two engines behind one endpoint -/

private def onFirst : Key String := ("vllm:generation_tokens_total", "first")

private def onSecond : Key String := ("vllm:generation_tokens_total", "second")

private theorem twoSeries_nodup : [onFirst, onSecond].Nodup := by decide

private def bothAt (t : ℚ) : Answer String := ⟨t, [onFirst, onSecond], fun _ ↦ 0, twoSeries_nodup⟩

/-- Each series generates a hundred tokens. -/
private def bothGrow (t : ℚ) : Event String := ⟨fun _ ↦ .grew 100, some (bothAt t)⟩

/-- The first series restarts, and the second one generates two hundred tokens. -/
private def firstRestarts : Event String :=
  ⟨fun k ↦ if k = onFirst then .restarted 5 else .grew 200, some (bothAt 10)⟩

/-- When both series grow, their rate is what they have grown in a second. -/
theorem bothGrow_sound :
    ∃ r ∈ (sampled (some "vllm") (fun _ ↦ 0) [bothGrow 0, bothGrow 10]).reports,
      r.reading.generationTokensPerSecond = some 20 ∧ r.Sound (some "vllm") := by
  have hrun : (sampled (some "vllm") (fun _ ↦ 0) [bothGrow 0, bothGrow 10]).reports.map
      (fun r ↦ (r.reading.generationTokensPerSecond, decide (r.Shows (some "vllm")))) =
        [(some 20, true)] := by decide +kernel
  obtain ⟨r, hr, heq⟩ := List.mem_map.mp (hrun ▸ List.mem_singleton_self (some (20 : ℚ), true))
  obtain ⟨hrate, hshows⟩ := Prod.mk.inj heq
  exact ⟨r, hr, hrate, (sound_iff_shows (some "vllm") (fun _ ↦ 0) [bothGrow 0, bothGrow 10] r
    hr).mpr (of_decide_eq_true hshows)⟩

/-- When the first series restarts, a rate is reported. -/
theorem firstRestarts_not_sound :
    ¬∀ (engine : Option String) (count : Key String → ℚ) (events : List (Event String)),
      ∀ r ∈ (sampled engine count events).reports, r.Sound engine := by
  intro hsound
  have hrun : (sampled (some "vllm") (fun _ ↦ 0) [bothGrow 0, firstRestarts]).reports.map
      (fun r ↦ (r.reading.perSecond .generationTokens,
        decide (r.Restarts (some "vllm") .generationTokens))) = [(some (21 / 2), true)] := by
    decide +kernel
  obtain ⟨r, hr, heq⟩ :=
    List.mem_map.mp (hrun ▸ List.mem_singleton_self (some (21 / 2 : ℚ), true))
  obtain ⟨hrate, hrestarts⟩ := Prod.mk.inj heq
  have hnone := ((hsound _ _ _ r hr .generationTokens).2 (of_decide_eq_true hrestarts)).1
  rw [hrate] at hnone
  cases hnone

end SparkPulse.Metrics
