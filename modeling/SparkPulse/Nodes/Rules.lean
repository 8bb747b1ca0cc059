import SparkPulse.Nodes.Registry

/-!
# The rules of the registry

At most one node is the control plane, no two answer at one address, and every node but the control
plane has an address. What a thread looked up under the lock stays as it is until it writes, unless
an import commits meanwhile, which takes no lock. So the rules hold as long as no import does that,
no file breaks them, and no update gives a node an address that the checks do not see.
-/

namespace SparkPulse.Nodes

open Program Prog Threads Transition
open SparkPulse.Recipes (Text trim)
open SparkPulse.Runtime (isSpace)

/-! ## Tables -/

/-- The rules, of the nodes by id. -/
structure Rules (nodes : Text → Option NodeRecord) : Prop where
  control : ∀ id id' node node', nodes id = some node → nodes id' = some node' →
    node.isControlPlane → node'.isControlPlane → id = id'
  addresses : ∀ id id' node node', nodes id = some node → nodes id' = some node' →
    strip node.address ≠ [] → strip node.address = strip node'.address → id = id'
  reachable : ∀ id node, nodes id = some node → ¬node.isControlPlane → strip node.address ≠ []

/-- A table that follows the rules, and whose addresses are as the checks compare them. -/
structure Table.Sound (t : Table) : Prop where
  rules : Rules t.lookup
  keyed : ∀ id node, t.lookup id = some node → node.id = id
  stripped : ∀ id node, t.lookup id = some node → strip node.address = node.address

/-- What an operator set stays: a node has the settings that it had, blanks aside. -/
structure NodeRecord.Kept (node node' : NodeRecord) : Prop where
  name : node.name ≠ [] → node'.name = node.name
  address : node.address ≠ [] → node'.address = node.address
  sshUser : node.sshUser ≠ [] → node'.sshUser = node.sshUser
  sshKeyPath : node.sshKeyPath ≠ [] → node'.sshKeyPath = node.sshKeyPath
  ethernetInterface :
    node.ethernetInterface ≠ [] → node'.ethernetInterface = node.ethernetInterface
  infinibandInterfaces :
    node.infinibandInterfaces ≠ [] → node'.infinibandInterfaces = node.infinibandInterfaces
  fabricAddresses : node.fabricAddresses ≠ [] → node'.fabricAddresses = node.fabricAddresses
  fabricMode : node.fabricMode ≠ none → node'.fabricMode = node.fabricMode

/-- Every node is there still, with its settings. -/
def Write.Keeps (write : Write) : Prop :=
  ∀ id node, write.before.lookup id = some node →
    ∃ node', write.after.lookup id = some node' ∧ node.Kept node'

section
variable {t : Table} {node : NodeRecord} {nodes : List NodeRecord} {id address exceptId : Text}

theorem NodeRecord.Kept.refl (node : NodeRecord) : node.Kept node :=
  ⟨fun _ ↦ rfl, fun _ ↦ rfl, fun _ ↦ rfl, fun _ ↦ rfl, fun _ ↦ rfl, fun _ ↦ rfl, fun _ ↦ rfl,
    fun _ ↦ rfl⟩

theorem lookup_upsert : (upsert t node).lookup id =
    if id = node.id then some node else t.lookup id := by
  rw [upsert]
  split_ifs with h
  · rw [h, AList.lookup_insert]
  · rw [AList.lookup_insert_ne h]

theorem lookup_foldl_upsert : (nodes.foldl upsert t).lookup id =
    (nodes.reverse.find? (·.id = id)).or (t.lookup id) := by
  induction nodes generalizing t with
  | nil => rfl
  | cons node nodes ih =>
    rw [List.foldl_cons, ih, lookup_upsert, List.reverse_cons, List.find?_append, Option.or_assoc]
    congr 1
    by_cases h : id = node.id
    · simp [h]
    · simp [h, Ne.symm h]

theorem not_taken (h : t.taken address exceptId = false) {other : NodeRecord}
    (hother : t.lookup id = some other) (hid : exceptId ≠ [] → id ≠ exceptId) :
    other.address ≠ address := by
  intro haddress
  rw [Table.taken, List.any_eq_false] at h
  refine h _ (AList.mem_lookup_iff.mp hother) (decide_eq_true ⟨haddress, hid⟩)

theorem controlPlane_eq_some (h : t.controlPlane = some node) :
    ∃ id, t.lookup id = some node ∧ node.isControlPlane := by
  obtain ⟨e, he, rfl⟩ := Option.map_eq_some_iff.mp h
  have hcontrol := List.find?_some he
  exact ⟨e.1, AList.mem_lookup_iff.mpr (List.mem_of_find?_eq_some he), hcontrol⟩

theorem controlPlane_eq_none (h : t.controlPlane = none) (hid : t.lookup id = some node) :
    ¬node.isControlPlane := by
  rw [Table.controlPlane, Option.map_eq_none_iff, List.find?_eq_none] at h
  exact h _ (AList.mem_lookup_iff.mp hid)

/-- A node may be written whose address is its own, and that is the control plane alone. -/
theorem Table.Sound.upsert (h : t.Sound) (hstripped : strip node.address = node.address)
    (hreachable : node.address = [] → node.isControlPlane)
    (haddress : node.address ≠ [] → ∀ id other, t.lookup id = some other → id ≠ node.id →
      other.address ≠ node.address)
    (hcontrol : node.isControlPlane → ∀ id other, t.lookup id = some other → id ≠ node.id →
      ¬other.isControlPlane) : (upsert t node).Sound := by
  have hlookup : ∀ id other, (Nodes.upsert t node).lookup id = some other →
      id = node.id ∧ node = other ∨ id ≠ node.id ∧ t.lookup id = some other := by
    intro id other hother
    rw [lookup_upsert] at hother
    split_ifs at hother with hid
    · exact .inl ⟨hid, Option.some.inj hother⟩
    · exact .inr ⟨hid, hother⟩
  constructor
  · constructor
    · intro id id' first second hfirst hsecond hc hc'
      rcases hlookup _ _ hfirst with ⟨rfl, rfl⟩ | ⟨hne, hfirst⟩ <;>
        rcases hlookup _ _ hsecond with ⟨hid, rfl⟩ | ⟨hne', hsecond⟩
      · exact hid.symm
      · exact (hcontrol hc _ _ hsecond hne' hc').elim
      · exact (hcontrol hc' _ _ hfirst hne hc).elim
      · exact h.rules.control _ _ _ _ hfirst hsecond hc hc'
    · intro id id' first second hfirst hsecond hne heq
      rcases hlookup _ _ hfirst with ⟨rfl, rfl⟩ | ⟨hid, hfirst⟩ <;>
        rcases hlookup _ _ hsecond with ⟨hid', rfl⟩ | ⟨hid', hsecond⟩
      · exact hid'.symm
      · rw [hstripped] at hne heq
        rw [h.stripped _ _ hsecond] at heq
        exact (haddress hne _ _ hsecond hid' heq.symm).elim
      · rw [h.stripped _ _ hfirst] at hne heq
        rw [hstripped] at heq
        exact (haddress (heq ▸ hne) _ _ hfirst hid heq).elim
      · exact h.rules.addresses _ _ _ _ hfirst hsecond hne heq
    · intro id other hother hpeer
      rcases hlookup _ _ hother with ⟨rfl, rfl⟩ | ⟨-, hother⟩
      · rw [hstripped]
        exact fun haddress ↦ hpeer (hreachable haddress)
      · exact h.rules.reachable _ _ hother hpeer
  · intro id other hother
    rcases hlookup _ _ hother with ⟨rfl, rfl⟩ | ⟨-, hother⟩
    · rfl
    · exact h.keyed _ _ hother
  · intro id other hother
    rcases hlookup _ _ hother with ⟨rfl, rfl⟩ | ⟨-, hother⟩
    · exact hstripped
    · exact h.stripped _ _ hother

theorem sound_empty : Table.Sound ∅ := by
  refine ⟨⟨?_, ?_, ?_⟩, ?_, ?_⟩ <;> simp

theorem Table.Sound.erase (h : t.Sound) : Table.Sound (t.erase id) := by
  have hlookup : ∀ (id' : Text) (other : NodeRecord), (t.erase id).lookup id' = some other →
      t.lookup id' = some other := by
    intro id' other hother
    by_cases hid : id' = id
    · rw [hid, AList.lookup_erase] at hother
      cases hother
    · rwa [AList.lookup_erase_ne hid] at hother
  refine ⟨⟨?_, ?_, ?_⟩, ?_, ?_⟩
  · exact fun _ _ _ _ hfirst hsecond ↦
      h.rules.control _ _ _ _ (hlookup _ _ hfirst) (hlookup _ _ hsecond)
  · exact fun _ _ _ _ hfirst hsecond ↦
      h.rules.addresses _ _ _ _ (hlookup _ _ hfirst) (hlookup _ _ hsecond)
  · exact fun _ _ hother ↦ h.rules.reachable _ _ (hlookup _ _ hother)
  · exact fun _ _ hother ↦ h.keyed _ _ (hlookup _ _ hother)
  · exact fun _ _ hother ↦ h.stripped _ _ (hlookup _ _ hother)

/-- The entries of a file follow the rules, the last of each id, together with the nodes that it has
none for, and have addresses without surrounding whitespace. -/
structure Importable (t : Table) (nodes : List NodeRecord) : Prop where
  rules : Rules fun id ↦ (nodes.reverse.find? (·.id = id)).or (t.lookup id)
  stripped : ∀ node ∈ nodes, strip node.address = node.address

theorem Importable.sound (h : Importable t nodes) (ht : t.Sound) :
    (nodes.foldl Nodes.upsert t).Sound := by
  have hlookup : ∀ id other, (nodes.foldl Nodes.upsert t).lookup id = some other →
      other ∈ nodes ∧ other.id = id ∨ t.lookup id = some other := by
    intro id other hother
    rw [lookup_foldl_upsert] at hother
    rcases Option.or_eq_some_iff.mp hother with hfind | ⟨-, hother⟩
    · exact .inl ⟨List.mem_reverse.mp (List.mem_of_find?_eq_some hfind),
        by simpa using List.find?_some hfind⟩
    · exact .inr hother
  refine ⟨?_, fun id other hother ↦ ?_, fun id other hother ↦ ?_⟩
  · have hrules := h.rules
    rwa [← funext fun id ↦ @lookup_foldl_upsert t nodes id] at hrules
  · rcases hlookup _ _ hother with ⟨-, hid⟩ | hother
    · exact hid
    · exact ht.keyed _ _ hother
  · rcases hlookup _ _ hother with ⟨hmem, -⟩ | hother
    · exact h.stripped _ hmem
    · exact ht.stripped _ _ hother

/-- Entries of new ids leave what is there. -/
theorem lookup_foldl_upsert_of_new (hnew : ∀ other ∈ nodes, other.id ∉ t)
    (hid : t.lookup id = some node) : (nodes.foldl Nodes.upsert t).lookup id = some node := by
  have hmem : id ∈ t := by
    rw [← AList.lookup_isSome, hid]
    rfl
  have hfind : nodes.reverse.find? (·.id = id) = none := by
    rw [List.find?_eq_none]
    intro other hother hid
    exact hnew other (List.mem_reverse.mp hother) (of_decide_eq_true hid ▸ hmem)
  rw [lookup_foldl_upsert, hfind, hid]
  rfl

end

/-! ## What is asked of the steps -/

def Op.registers : Op → Bool
  | registerSelf _ => true
  | _ => false

/-- An address that a node is updated to has no surrounding whitespace, and is empty for the control
plane only. -/
def Changes.Addressed (changes : Changes) (current : Option NodeRecord) : Prop :=
  ∀ node ∈ current, ∀ address ∈ changes.address,
    strip address = address ∧ (address = [] → node.isControlPlane)

section
variable (ops : ℕ → Op)

/-- What a run has to meet. A file that is imported can be, and nobody else is inside the lock; from
`register_self`, it has no entry for a node that is there. -/
def Meets : CallGuard ℕ Call World := fun i w c ↦
  match c with
  | .importRows nodes => w.imported = false →
    (∀ j n, w.lock = some (j, n) → j = i) ∧ Importable w.rows nodes ∧
      ((ops i).registers → ∀ node ∈ nodes, node.id ∉ w.rows)
  | .get nodeId =>
    match ops i with
    | .update _ changes => changes.Addressed (w.rows.lookup nodeId)
    | _ => True
  | _ => True

/-- The rules hold, and `register_self` never changed what an operator set. -/
structure World.Sound (w : World) : Prop where
  table : w.rows.Sound
  writes : ∀ write ∈ w.writes, (ops write.thread).registers → write.Keeps

end

/-- What others leave to a thread: the registry while it holds the lock. -/
def Leaves (i : ℕ) (v w : World) : Prop :=
  ∀ n, v.lock = some (i, n) → w.lock = some (i, n) ∧ w.rows = v.rows

/-- The thread holds the lock, and this is known of the registry. -/
def Holds (i : ℕ) (P : Table → Prop) (w : World) : Prop := (∃ n, w.lock = some (i, n)) ∧ P w.rows

/-- What calls that only look answer leaves the world as it is. -/
def Call.looks : Call → Bool
  | acquire | release | importRows _ | insert _ | put _ | delete _ => false
  | _ => true

section
variable {ops : ℕ → Op} {i : ℕ} {u v w : World} {c : Call} {P : Table → Prop} {α : Type}

theorem exec_looks (hc : c.looks) {a : Answer} {r : c.Reply} (h : exec i v c a = some (r, w)) :
    w = v := by
  cases c <;> first
    | exact absurd hc Bool.false_ne_true
    | (cases a <;> cases h <;> rfl)

theorem Leaves.holds (h : Leaves i u v) (hu : Holds i P u) : Holds i P v := by
  obtain ⟨⟨n, hn⟩, hP⟩ := hu
  obtain ⟨hlock, hrows⟩ := h n hn
  exact ⟨⟨n, hlock⟩, hrows ▸ hP⟩

theorem Leaves.refl (i : ℕ) (w : World) : Leaves i w w := fun _ h ↦ ⟨h, rfl⟩

theorem Leaves.trans (h : Leaves i u v) (h' : Leaves i v w) : Leaves i u w := by
  intro n hn
  obtain ⟨hlock, hrows⟩ := h n hn
  obtain ⟨hlock', hrows'⟩ := h' n hlock
  exact ⟨hlock', hrows'.trans hrows⟩

theorem leaves_of_holds {j : ℕ} (hj : j ≠ i) (h : ∃ n, v.lock = some (i, n)) :
    Leaves j v w := by
  intro n hn
  obtain ⟨m, hm⟩ := h
  rw [hm] at hn
  exact absurd (Prod.mk.inj (Option.some.inj hn)).1.symm hj

/-- The setting of a thread among the others. -/
abbrev Among (ops : ℕ → Op) (i : ℕ) : Setting Call.Reply World :=
  sharing exec (Meets ops) (World.Sound ops) Leaves i

/-- The rule for one call. -/
theorem safe_invoke {K : World → Prop} {Q : c.Reply → World → Prop}
    {X : RegistryError → World → Prop} (hstable : ∀ u v, Leaves i u v → K u → K v)
    (hw : w.Sound ops ∧ K w)
    (h : ∀ v a r v', v.Sound ops → K v → Meets ops i v c → exec i v c a = some (r, v') →
      (v'.Sound ops ∧ ∀ j, j ≠ i → Leaves j v v') ∧ Q r v') :
    (invoke c).Safe (Among ops i) Q X w := by
  refine safe_sharing_op hstable hw fun v r v' hv hK hperform ↦ ?_
  obtain ⟨hmeets, a, ha⟩ := hperform
  exact h v a r v' hv hK hmeets ha

/-- The rule for a call that only looks. -/
theorem safe_look {K : World → Prop} {Q : c.Reply → World → Prop}
    {X : RegistryError → World → Prop} (hstable : ∀ u v, Leaves i u v → K u → K v)
    (hc : c.looks) (hw : w.Sound ops ∧ K w)
    (h : ∀ v a r, v.Sound ops → K v → Meets ops i v c → exec i v c a = some (r, v) → Q r v) :
    (invoke c).Safe (Among ops i) Q X w := by
  refine safe_invoke hstable hw fun v a r v' hv hK hmeets ha ↦ ?_
  obtain rfl := exec_looks hc ha
  exact ⟨⟨hv, fun j _ ↦ .refl j v'⟩, h v' a r hv hK hmeets ha⟩

/-- What is known stays known over calls that only look. -/
theorem safe_of_looks {K : World → Prop} {p : Act α}
    (hstable : ∀ u v, Leaves i u v → K u → K v) (hp : p.Uses fun c ↦ c.looks)
    (hw : w.Sound ops ∧ K w) :
    p.Safe (Among ops i) (fun _ w ↦ w.Sound ops ∧ K w) (fun _ w ↦ w.Sound ops ∧ K w) w := by
  refine hp.safe ?_ ?_ hw
  · rintro u v ⟨hu, hK⟩ hrely
    obtain ⟨hv, hleaves⟩ := hrely hu
    exact ⟨hv, hstable u v hleaves hK⟩
  · rintro v c r v' hc hv ⟨-, a, ha⟩
    obtain rfl := exec_looks hc ha
    exact ⟨fun hv ↦ ⟨hv, fun j _ ↦ .refl j v'⟩, hv⟩

/-! ## Commits -/

/-- A commit under the lock keeps the rules if the new table follows them. -/
theorem World.Sound.commit {t : Table} (h : w.Sound ops) (ht : t.Sound)
    (hkeeps : (ops i).registers → (⟨i, w.rows, t⟩ : Write).Keeps) :
    (w.commit i t).Sound ops := by
  refine ⟨ht, fun write hwrite ↦ ?_⟩
  rcases List.mem_cons.mp hwrite with rfl | hwrite
  · exact hkeeps
  · exact h.writes write hwrite

theorem looks_recordsOf (items : List (Option Item)) :
    (recordsOf items).Uses fun c ↦ c.looks := by
  induction items with
  | nil => exact uses_pure
  | cons item items ih =>
    cases item with
    | none => exact ih
    | some item =>
      have hrest : ∀ id : Text, Uses (fun c ↦ c.looks) (do
          let nodes ← recordsOf items
          return NodeRecord.fromDict id item :: nodes) :=
        fun id ↦ ih.bind fun nodes ↦ uses_pure
      exact Uses.ite (fun _ ↦ Uses.bind uses_pure hrest)
        fun _ ↦ Uses.bind (uses_call.mpr rfl) hrest

/-- The import keeps the rules, and what it may be known to keep. -/
theorem safe_migrate {K : World → Prop} (hstable : ∀ u v, Leaves i u v → K u → K v)
    (himport : ∀ v nodes, K v → Meets ops i v (.importRows nodes) → v.imported = false →
      K { v.commit i (nodes.foldl upsert v.rows) with imported := true })
    (hw : w.Sound ops ∧ K w) :
    migrate.Safe (Among ops i) (fun _ w ↦ w.Sound ops ∧ K w) (fun _ w ↦ w.Sound ops) w := by
  rw [migrate, safe_bind]
  refine safe_look hstable rfl hw fun v a imported hv hK _ _ ↦ ?_
  cases imported with
  | true => exact ⟨hv, hK⟩
  | false =>
    rw [if_neg (by simp), safe_bind]
    refine safe_look hstable rfl ⟨hv, hK⟩ fun v a content hv hK _ _ ↦ ?_
    cases content with
    | absent => exact ⟨hv, hK⟩
    | unreadable => exact hv
    | shapeless => exact ⟨hv, hK⟩
    | nodes items =>
      rw [safe_bind]
      refine (safe_of_looks hstable (looks_recordsOf items) ⟨hv, hK⟩).mono
        (fun nodes w hw ↦ ?_) fun _ w hw ↦ hw.1
      refine safe_invoke hstable hw fun v a r v' hv hK hmeets ha ↦ ?_
      simp only [exec] at ha
      split_ifs at ha with himported
      · obtain ⟨-, rfl⟩ := Prod.mk.inj (Option.some.inj ha)
        exact ⟨⟨hv, fun j _ ↦ .refl j v⟩, hv, hK⟩
      · obtain ⟨-, rfl⟩ := Prod.mk.inj (Option.some.inj ha)
        rw [Bool.not_eq_true] at himported
        obtain ⟨hlock, himportable, hnew⟩ := hmeets himported
        have hsound : (v.commit i (nodes.foldl upsert v.rows)).Sound ops :=
          hv.commit (himportable.sound hv.table) fun hregisters id node hnode ↦
            ⟨node, lookup_foldl_upsert_of_new (hnew hregisters) hnode, .refl node⟩
        have hafter : World.Sound ops
            { v.commit i (nodes.foldl upsert v.rows) with imported := true } :=
          ⟨hsound.table, hsound.writes⟩
        refine ⟨⟨hafter, fun j hj n hn ↦ absurd (hlock j n hn) hj⟩, hafter, ?_⟩
        exact himport v nodes hK hmeets himported

/-! ## Lock sections -/

/-- A program that keeps the rules, however it ends. -/
def Careful (ops : ℕ → Op) (i : ℕ) (p : Act α) (w : World) : Prop :=
  p.Safe (Among ops i) (fun _ w ↦ w.Sound ops) (fun _ w ↦ w.Sound ops) w

theorem exec_acquire {a : Answer} {r : PUnit} (h : exec i v .acquire a = some (r, w)) :
    (v.lock = none ∨ ∃ n, v.lock = some (i, n)) ∧ (∃ n, w.lock = some (i, n)) ∧
      w.rows = v.rows ∧ w.writes = v.writes := by
  simp only [exec] at h
  split at h
  · rename_i hlock
    obtain ⟨-, rfl⟩ := Prod.mk.inj (Option.some.inj h)
    exact ⟨.inl hlock, ⟨1, rfl⟩, rfl, rfl⟩
  · rename_i j n hlock
    split_ifs at h with hj
    subst hj
    obtain ⟨-, rfl⟩ := Prod.mk.inj (Option.some.inj h)
    exact ⟨.inr ⟨n, hlock⟩, ⟨n + 1, rfl⟩, rfl, rfl⟩

theorem exec_release {a : Answer} {r : PUnit} (h : exec i v .release a = some (r, w)) :
    (∃ n, v.lock = some (i, n)) ∧ w.rows = v.rows ∧ w.writes = v.writes := by
  simp only [exec] at h
  split at h
  · cases h
  · rename_i j n hlock
    by_cases hj : j = i
    · subst hj
      rw [if_pos rfl] at h
      obtain ⟨-, rfl⟩ := Prod.mk.inj (Option.some.inj h)
      exact ⟨⟨n, hlock⟩, rfl, rfl⟩
    · rw [if_neg hj] at h
      cases h

theorem World.Sound.of_eq (h : v.Sound ops) (hrows : w.rows = v.rows)
    (hwrites : w.writes = v.writes) : w.Sound ops :=
  ⟨hrows ▸ h.table, hwrites ▸ h.writes⟩

theorem careful_release (hw : w.Sound ops) : Careful ops i (invoke .release) w := by
  refine safe_invoke (K := fun _ ↦ True) (fun _ _ _ h ↦ h) ⟨hw, trivial⟩
    fun v a r v' hv _ _ ha ↦ ?_
  obtain ⟨hlock, hrows, hwrites⟩ := exec_release ha
  have hafter := hv.of_eq hrows hwrites
  exact ⟨⟨hafter, fun j hj ↦ leaves_of_holds hj hlock⟩, hafter⟩

/-- The rule for a lock section: what holds when the lock is taken holds until it is changed. -/
theorem careful_withLock {p : Act α} (hw : w.Sound ops)
    (hP : ∀ v, Leaves i w v → v.Sound ops → P v.rows)
    (hp : ∀ v, v.Sound ops ∧ Holds i P v → Careful ops i p v) :
    Careful ops i (withLock p) w := by
  have hbody : ∀ v, v.Sound ops ∧ Holds i P v →
      (p.ensure (invoke .release)).Safe (Among ops i) (fun _ w ↦ w.Sound ops)
        (fun _ w ↦ w.Sound ops) v := by
    intro v hv
    rw [safe_ensure]
    exact (hp v hv).mono (fun _ _ ↦ careful_release) fun _ _ ↦ careful_release
  rw [Careful, withLock, safe_bind]
  refine safe_invoke (K := fun v ↦ Leaves i w v) (fun _ _ h h' ↦ h'.trans h) ⟨hw, .refl i w⟩
    fun v a r v' hv hleaves _ ha ↦ ?_
  obtain ⟨hbefore, hlock, hrows, hwrites⟩ := exec_acquire ha
  have hafter := hv.of_eq hrows hwrites
  refine ⟨⟨hafter, fun j hj n hn ↦ ?_⟩, hbody v' ⟨hafter, hlock, hrows ▸ hP v hleaves hv⟩⟩
  rcases hbefore with hnone | hheld
  · rw [hnone] at hn
    cases hn
  · exact leaves_of_holds hj hheld n hn

/-- What entries of new ids keep stays known over the import. -/
theorem safe_migrate_held
    (hP : ∀ (t : Table) (nodes : List NodeRecord), P t →
      ((ops i).registers → ∀ node ∈ nodes, node.id ∉ t) → P (nodes.foldl upsert t))
    (hw : w.Sound ops ∧ Holds i P w) :
    migrate.Safe (Among ops i) (fun _ w ↦ w.Sound ops ∧ Holds i P w) (fun _ w ↦ w.Sound ops) w :=
  safe_migrate (fun _ _ ↦ Leaves.holds)
    (fun v nodes hv hmeets himported ↦ ⟨hv.1, hP v.rows nodes hv.2 (hmeets himported).2.2⟩) hw

theorem safe_refuseDuplicateAddress {address exceptId : Text}
    (hw : w.Sound ops ∧ Holds i P w) :
    (refuseDuplicateAddress address exceptId).Safe (Among ops i)
      (fun _ w ↦ w.Sound ops ∧
        Holds i (fun t ↦ P t ∧ (address ≠ [] → t.taken address exceptId = false)) w)
      (fun _ w ↦ w.Sound ops) w := by
  obtain ⟨hsound, hlock, hP⟩ := hw
  rw [refuseDuplicateAddress]
  split_ifs with haddress
  · exact ⟨hsound, hlock, hP, fun h ↦ (h haddress).elim⟩
  · rw [safe_bind]
    refine safe_look (fun _ _ ↦ Leaves.holds) rfl ⟨hsound, hlock, hP⟩
      fun v a taken hv hK _ ha ↦ ?_
    have htaken : v.rows.taken address exceptId = taken :=
      (Prod.mk.inj (Option.some.inj ha)).1
    cases taken with
    | true => exact hv
    | false => exact ⟨hv, hK.1, hK.2, fun _ ↦ htaken⟩

/-- The rule for a commit under the lock. -/
theorem careful_commit {f : Table → Table} (hw : w.Sound ops ∧ Holds i P w)
    (h : ∀ v a r v', v.Sound ops → P v.rows → exec i v c a = some (r, v') →
      v' = v.commit i (f v.rows) ∧ (f v.rows).Sound ∧
        ((ops i).registers → (⟨i, v.rows, f v.rows⟩ : Write).Keeps)) :
    Careful ops i (invoke c) w := by
  refine safe_invoke (fun _ _ ↦ Leaves.holds) hw fun v a r v' hv hK _ ha ↦ ?_
  obtain ⟨rfl, hsound, hkeeps⟩ := h v a r v' hv hK.2 ha
  have hafter := hv.commit hsound hkeeps
  exact ⟨⟨hafter, fun j hj ↦ leaves_of_holds hj hK.1⟩, hafter⟩

/-! ## Operations -/

theorem Careful.bind {β : Type} {p : Act α} {f : α → Act β} (hp : Careful ops i p w)
    (hf : ∀ a w, w.Sound ops → Careful ops i (f a) w) : Careful ops i (p >>= f) w := by
  rw [Careful, safe_bind]
  exact hp.mono hf fun _ _ hw ↦ hw

theorem careful_of_looks {p : Act α} (hp : p.Uses fun c ↦ c.looks) (hw : w.Sound ops) :
    Careful ops i p w :=
  (safe_of_looks (K := fun _ ↦ True) (fun _ _ _ h ↦ h) hp ⟨hw, trivial⟩).mono
    (fun _ _ h ↦ h.1) fun _ _ h ↦ h.1

theorem careful_migrate (hw : w.Sound ops) : Careful ops i migrate w :=
  (safe_migrate (K := fun _ ↦ True) (fun _ _ _ h ↦ h) (fun _ _ h _ _ ↦ h) ⟨hw, trivial⟩).mono
    (fun _ _ h ↦ h.1) fun _ _ h ↦ h

/-- A new node may be registered that has an address, or is the control plane. -/
theorem careful_register {node : NodeRecord} (hw : w.Sound ops)
    (hstripped : strip node.address = node.address)
    (hreachable : node.address = [] → node.isControlPlane) :
    Careful ops i (register node) w := by
  refine careful_withLock (P := fun _ ↦ True) hw (fun _ _ _ ↦ trivial) fun v hv ↦ ?_
  rw [Careful, safe_bind]
  refine (safe_migrate_held (fun _ _ _ _ ↦ trivial) hv).mono (fun _ v hv ↦ ?_) fun _ _ h ↦ h
  rw [safe_bind]
  refine (safe_refuseDuplicateAddress hv).mono (fun _ v hv ↦ ?_) fun _ _ h ↦ h
  have hinsert : ∀ v, v.Sound ops ∧ Holds i (fun t ↦
        (True ∧ (node.address ≠ [] → t.taken node.address [] = false)) ∧
          (node.isControlPlane → t.controlPlane = none)) v →
      Careful ops i (do
        let _ ← invoke (.insert node)
        return node) v := by
    intro v hv
    refine (careful_commit (f := fun t ↦ upsert t node) hv
      fun v a r v' hv hP ha ↦ ?_).bind fun _ _ h ↦ h
    obtain ⟨⟨-, htaken⟩, hcontrol⟩ := hP
    have ha : (if node.id ∈ v.rows then none else some (r, v.commit i (upsert v.rows node))) =
      some (r, v') := ha
    split_ifs at ha with hnew
    obtain ⟨-, rfl⟩ := Prod.mk.inj (Option.some.inj ha)
    refine ⟨rfl, hv.table.upsert hstripped hreachable ?_ ?_, fun _ id other hother ↦ ?_⟩
    · exact fun hne id other hother _ ↦ not_taken (htaken hne) hother fun h ↦ (h rfl).elim
    · exact fun hc id other hother _ ↦ controlPlane_eq_none (hcontrol hc) hother
    · have hid : id ≠ node.id := by
        rintro rfl
        exact hnew (AList.lookup_isSome.mp (by rw [hother]; rfl))
      exact ⟨other, by rw [lookup_upsert, if_neg hid, hother], .refl other⟩
  split_ifs with hc
  · rw [safe_bind]
    refine safe_look (fun _ _ ↦ Leaves.holds) rfl hv fun v a control hv hK _ ha ↦ ?_
    have hcontrol : v.rows.controlPlane = control := (Prod.mk.inj (Option.some.inj ha)).1
    cases control with
    | some other => exact hv
    | none => exact hinsert v ⟨hv, hK.1, hK.2, fun _ ↦ hcontrol⟩
  · exact hinsert v ⟨hv.1, hv.2.1, hv.2.2, fun h ↦ (hc h).elim⟩

theorem strip_strip (t : Text) : strip (strip t) = strip t := by
  have hdrop : (strip t).dropWhile isSpace = strip t := by
    rw [List.dropWhile_eq_self_iff]
    intro hlength
    have hprefix : strip t <+: t.dropWhile isSpace := List.rdropWhile_prefix _ _
    have hpos : 0 < (t.dropWhile isSpace).length := hlength.trans_le hprefix.length_le
    have hhead := List.dropWhile_get_zero_not isSpace t hpos
    rwa [List.get_eq_getElem, ← hprefix.getElem hlength] at hhead
  rw [strip, trim, hdrop, strip, trim, List.rdropWhile_idempotent]

theorem careful_addNode {new : NewNode} (hw : w.Sound ops) : Careful ops i (addNode new) w := by
  rw [addNode]
  by_cases haddress : strip new.address = [] ∧ ¬new.isControlPlane
  · rw [if_pos haddress]
    exact hw
  rw [if_neg haddress]
  cases nodeState? new.state with
  | none => exact hw
  | some state =>
    refine (careful_of_looks (uses_call.mpr rfl) hw).bind fun id v hv ↦ ?_
    have hregister : ∀ lastSeen v, v.Sound ops →
        Careful ops i (register (new.record id state lastSeen)) v := by
      intro lastSeen v hv
      refine careful_register hv (strip_strip new.address) fun hnil ↦ ?_
      by_contra hpeer
      exact haddress ⟨hnil, hpeer⟩
    by_cases hcontrol : new.isControlPlane
    · simp only [hcontrol, if_true]
      exact (careful_of_looks (uses_call.mpr rfl) hv).bind fun t v hv ↦ hregister (some t) v hv
    · simp only [hcontrol]
      exact hregister none v hv

theorem edits_of_check {changes : Changes} {edits : Edits} (h : changes.check = .ok edits) :
    edits = {
      name := changes.name
      address := changes.address
      sshUser := changes.sshUser
      sshKeyPath := changes.sshKeyPath
      ethernetInterface := changes.ethernetInterface
      infinibandInterfaces := changes.infinibandInterfaces
      fabricAddresses := changes.fabricAddresses.map cleanAddresses
      fabricMode := changes.fabricMode.map fabricMode?
      state := changes.state.bind nodeState?
      lastSeen := changes.lastSeen
      machineId := changes.machineId } := by
  rw [Changes.check] at h
  split_ifs at h
  exact (Except.ok.inj h).symm

/-- A node may be updated to an address that is its own, and that is empty for the control plane
only. -/
theorem careful_updateNode {nodeId : Text} {changes : Changes} (hw : w.Sound ops)
    (hP : ∀ v, Leaves i w v → v.Sound ops → P v.rows)
    (himport : ∀ (t : Table) (nodes : List NodeRecord), P t →
      ((ops i).registers → ∀ node ∈ nodes, node.id ∉ t) → P (nodes.foldl upsert t))
    (hedit : ∀ v node edits, v.Sound ops → P v.rows → v.rows.lookup nodeId = some node →
      Meets ops i v (.get nodeId) → changes.check = .ok edits →
        strip (edits.apply node).address = (edits.apply node).address ∧
        ((edits.apply node).address = [] → node.isControlPlane) ∧
        ((ops i).registers → node.Kept (edits.apply node))) :
    Careful ops i (updateNode nodeId changes) w := by
  rw [updateNode]
  cases hcheck : changes.check with
  | error e => exact hw
  | ok edits =>
    refine careful_withLock hw hP fun v hv ↦ ?_
    rw [Careful, safe_bind]
    refine (safe_migrate_held himport hv).mono (fun _ v hv ↦ ?_) fun _ _ h ↦ h
    rw [safe_bind]
    refine safe_look (fun _ _ ↦ Leaves.holds) rfl hv fun v a current hv hK hmeets ha ↦ ?_
    have hcurrent : v.rows.lookup nodeId = current := (Prod.mk.inj (Option.some.inj ha)).1
    cases current with
    | none => exact hv
    | some node =>
      obtain ⟨hstripped, hreachable, hkept⟩ :=
        hedit v node edits hv hK.2 hcurrent hmeets hcheck
      rw [safe_bind]
      refine (safe_refuseDuplicateAddress (P := fun t ↦ t.lookup nodeId = some node)
        ⟨hv, hK.1, hcurrent⟩).mono (fun _ v hv ↦ ?_) fun _ _ h ↦ h
      refine (careful_commit (f := fun t ↦ upsert t (edits.apply node)) hv
        fun u a r u' hu hPu hau ↦ ?_).bind fun _ _ h ↦ h
      obtain ⟨hsame, htaken⟩ := hPu
      have hnode : node.id = nodeId := hu.table.keyed _ _ hsame
      have hkey : (edits.apply node).id = nodeId := hnode
      refine ⟨(Prod.mk.inj (Option.some.inj hau)).2.symm,
        hu.table.upsert hstripped hreachable ?_ ?_, fun hregisters id other hother ↦ ?_⟩
      · exact fun hne id other hother hid ↦ not_taken (htaken hne) hother fun _ ↦ hkey ▸ hid
      · exact fun hc id other hother hid hc' ↦
          hid ((hu.table.rules.control _ _ _ _ hother hsame hc' hc).trans hkey.symm)
      · rw [lookup_upsert, hkey]
        split_ifs with hid
        · rw [hid, hsame] at hother
          obtain rfl := Option.some.inj hother
          exact ⟨_, rfl, hkept hregisters⟩
        · exact ⟨other, hother, .refl other⟩

theorem careful_removeNode {nodeId : Text} (hw : w.Sound ops)
    (hregisters : (ops i).registers = false) : Careful ops i (removeNode nodeId) w := by
  refine careful_withLock (P := fun _ ↦ True) hw (fun _ _ _ ↦ trivial) fun v hv ↦ ?_
  rw [Careful, safe_bind]
  refine (safe_migrate_held (fun _ _ _ _ ↦ trivial) hv).mono (fun _ v hv ↦ ?_) fun _ _ h ↦ h
  rw [safe_bind]
  refine safe_look (fun _ _ ↦ Leaves.holds) rfl hv fun v a current hv hK hmeets ha ↦ ?_
  cases current with
  | none => exact hv
  | some node =>
    simp only
    split_ifs
    · exact hv
    · refine (careful_commit (f := fun t ↦ t.erase nodeId) ⟨hv, hK⟩
        fun v a r v' hv _ ha ↦ ?_).bind fun _ _ h ↦ h
      refine ⟨(Prod.mk.inj (Option.some.inj ha)).2.symm, hv.table.erase, fun h ↦ ?_⟩
      rw [hregisters] at h
      cases h

theorem safe_selfNode
    (hP : ∀ (t : Table) (nodes : List NodeRecord), P t →
      ((ops i).registers → ∀ node ∈ nodes, node.id ∉ t) → P (nodes.foldl upsert t))
    (hw : w.Sound ops ∧ Holds i P w) :
    selfNode.Safe (Among ops i) (fun existing w ↦ w.Sound ops ∧
      Holds i (fun t ↦ ∀ node ∈ existing, t.lookup node.id = some node) w)
      (fun _ w ↦ w.Sound ops) w := by
  rw [selfNode, safe_bind]
  refine (safe_migrate_held hP hw).mono (fun _ v hv ↦ ?_) fun _ _ h ↦ h
  refine safe_look (fun _ _ ↦ Leaves.holds) rfl hv fun v a existing hv hK _ ha ↦ ?_
  have hcontrol : v.rows.controlPlane = existing := (Prod.mk.inj (Option.some.inj ha)).1
  refine ⟨hv, hK.1, fun node hnode ↦ ?_⟩
  obtain ⟨id, hlookup, -⟩ := controlPlane_eq_some (hcontrol.trans hnode)
  rwa [hv.table.keyed _ _ hlookup]

/-- `register_self` fills in blanks. -/
theorem kept_blanks {existing : NodeRecord} {defaultName lastSeen machineId : Text}
    {discovered : Discovered} {edits : Edits}
    (h : (blanksOf existing defaultName discovered lastSeen machineId).check = .ok edits) :
    existing.Kept (edits.apply existing) := by
  obtain rfl := edits_of_check h
  constructor <;> intro hne <;> simp [Edits.apply, blanksOf, hne]

/-- An address that discovery fills in is its own. -/
theorem address_blanks {existing : NodeRecord} {defaultName lastSeen machineId : Text}
    {discovered : Discovered} {edits : Edits} (hexisting : strip existing.address = existing.address)
    (h : (blanksOf existing defaultName discovered lastSeen machineId).check = .ok edits) :
    strip (edits.apply existing).address = (edits.apply existing).address := by
  obtain rfl := edits_of_check h
  simp only [Edits.apply, blanksOf]
  split_ifs
  · exact discovered.address_stripped
  · exact hexisting

theorem careful_fillSelf {host : Text} {discovered : Discovered}
    (hregisters : (ops i).registers = true) (hw : w.Sound ops) :
    Careful ops i (fillSelf host discovered) w := by
  refine careful_withLock (P := fun _ ↦ True) hw (fun _ _ _ ↦ trivial) fun v hv ↦ ?_
  rw [Careful, safe_bind]
  refine (safe_selfNode (fun _ _ _ _ ↦ trivial) hv).mono (fun existing v hv ↦ ?_) fun _ _ h ↦ h
  cases existing with
  | none => exact (careful_of_looks (uses_call.mpr rfl) hv.1).bind fun _ _ ↦ careful_addNode
  | some existing =>
    -- From here on the record is as it was looked up: an import has no entry for it.
    have hknown : v.Sound ops ∧ Holds i (fun t ↦ t.lookup existing.id = some existing) v :=
      ⟨hv.1, hv.2.1, hv.2.2 existing rfl⟩
    rw [safe_bind]
    refine (safe_of_looks (fun _ _ ↦ Leaves.holds) (uses_call.mpr rfl) hknown).mono
      (fun lastSeen v hv ↦ ?_) fun _ _ h ↦ h.1
    rw [safe_bind]
    refine (safe_of_looks (fun _ _ ↦ Leaves.holds) (uses_call.mpr rfl) hv).mono
      (fun machineId v hv ↦ ?_) fun _ _ h ↦ h.1
    refine careful_updateNode (P := fun t ↦ t.lookup existing.id = some existing) hv.1
      (fun u hu _ ↦ (hu.holds hv.2).2)
      (fun t nodes ht hnew ↦ lookup_foldl_upsert_of_new (hnew hregisters) ht)
      fun u node edits hu hP hnode _ hcheck ↦ ?_
    obtain rfl := Option.some.inj (hP.symm.trans hnode)
    have hkept := kept_blanks hcheck
    refine ⟨address_blanks (hu.table.stripped _ _ hP) hcheck, fun hnil ↦ ?_, fun _ ↦ hkept⟩
    by_contra hpeer
    have hreachable := hu.table.rules.reachable _ _ hP hpeer
    rw [hu.table.stripped _ _ hP] at hreachable
    exact hreachable ((hkept.address hreachable).symm.trans hnil)

theorem careful_registerSelf {name : Text} (hregisters : (ops i).registers = true)
    (hw : w.Sound ops) : Careful ops i (registerSelf name) w := by
  refine (careful_of_looks (uses_call.mpr rfl) hw).bind fun discovered w hw ↦ ?_
  by_cases hname : strip name ≠ []
  · rw [if_pos hname]
    exact careful_fillSelf hregisters hw
  · rw [if_neg hname]
    exact (careful_of_looks (uses_call.mpr rfl) hw).bind fun host w hw ↦
      careful_fillSelf hregisters hw

theorem careful_program (hw : w.Sound ops) : Careful ops i (ops i).program w := by
  have hreturn : ∀ (node : NodeRecord) w, w.Sound ops →
      Careful ops i (pure [node] : Act (List NodeRecord)) w := fun _ _ h ↦ h
  cases hop : ops i with
  | add new => exact (careful_addNode hw).bind hreturn
  | update nodeId changes =>
    refine (careful_updateNode (P := fun _ ↦ True) hw (fun _ _ _ ↦ trivial)
      (fun _ _ _ _ ↦ trivial) fun v node edits hv _ hnode hmeets hcheck ↦ ?_).bind hreturn
    have haddressed : changes.Addressed (v.rows.lookup nodeId) := by
      simpa only [Meets, hop] using hmeets
    obtain rfl := edits_of_check hcheck
    simp only [Edits.apply]
    cases haddress : changes.address with
    | none =>
      refine ⟨hv.table.stripped _ _ hnode, fun hnil ↦ ?_, fun h ↦ ?_⟩
      · by_contra hpeer
        have hreachable := hv.table.rules.reachable _ _ hnode hpeer
        rw [hv.table.stripped _ _ hnode] at hreachable
        exact hreachable hnil
      · rw [hop] at h
        cases h
    | some address =>
      obtain ⟨hstripped, hreachable⟩ := haddressed node hnode address haddress
      refine ⟨hstripped, hreachable, fun h ↦ ?_⟩
      rw [hop] at h
      cases h
  | remove nodeId => exact (careful_removeNode hw (by rw [hop]; rfl)).bind hreturn
  | registerSelf name => exact (careful_registerSelf (by rw [hop]; rfl) hw).bind hreturn
  | list => exact (careful_migrate hw).bind fun _ _ hw ↦
      (careful_of_looks (uses_call.mpr rfl) hw).bind fun _ _ h ↦ h
  | get nodeId =>
    refine Careful.bind ?_ fun _ _ h ↦ h
    exact (careful_migrate hw).bind fun _ _ hw ↦ careful_of_looks (uses_call.mpr rfl) hw
  | self =>
    refine Careful.bind ?_ fun _ _ h ↦ h
    exact (careful_migrate hw).bind fun _ _ hw ↦ careful_of_looks (uses_call.mpr rfl) hw

end

/-! ## Runs -/

/-- The rules hold, and no step of `register_self` changed what an operator set. -/
structure Ruled (ops : ℕ → Op) (w : World) : Prop where
  rules : Rules w.rows.lookup
  settings : ∀ write ∈ w.writes, (ops write.thread).registers → write.Keeps

/-- **The rules hold in every run that meets what is asked.** -/
theorem ruled_of_reachable {ops : ℕ → Op}
    {s : Threads ℕ Call.Reply RegistryError (List NodeRecord) World}
    (h : (registry ops).Reachable (stepGuard (Meets ops)) s) : Ruled ops s.world := by
  obtain ⟨s₀, ⟨hpool, hworld⟩, hsteps⟩ := h
  have hinit : World.Sound ops ({} : World) := ⟨sound_empty, by simp⟩
  have hcompatible : Compatible (Among ops) :=
    compatible_sharing Leaves.refl fun i _ _ _ ↦ Leaves.trans
  have hsafe : ∀ i, (s₀.pool i).Safe (Among ops i) (fun _ w ↦ w.Sound ops)
      (fun _ w ↦ w.Sound ops) s₀.world := by
    intro i
    rw [hpool, hworld]
    exact careful_program hinit
  rw [← hworld] at hinit
  obtain ⟨-, hsound⟩ := Poised.sharing_steps hcompatible hsteps hinit hsafe
  exact ⟨hsound.table.rules, hsound.writes⟩

/-- One thread adds a node, another takes its address away. -/
private def addThenClear : ℕ → Op
  | 0 => .add { address := "10.0.0.1".toList }
  | 1 => .update ['a'] { address := some [] }
  | _ => .list

private def atFirst : Threads ℕ Call.Reply RegistryError (List NodeRecord) World :=
  ⟨fun i ↦ (addThenClear i).program, {}⟩

private def added : List (ℕ × Answer) :=
  [(0, .text ['a']), (0, .quiet), (0, .quiet), (0, .file .absent), (0, .quiet), (0, .quiet),
    (0, .quiet)]

theorem ruled_added : ∃ s : Threads ℕ Call.Reply RegistryError (List NodeRecord) World,
    (registry addThenClear).run atFirst added = some s ∧ Ruled addThenClear s.world := by
  refine ⟨_, rfl, ruled_of_reachable ?_⟩
  have h : (registry addThenClear).Reachable (stepGuard (Meets addThenClear)) atFirst :=
    .init ⟨rfl, rfl⟩
  have h := h.next (a := (0, .text ['a'])) (by exact trivial) rfl
  have h := h.next (a := (0, .quiet)) (by exact trivial) rfl
  have h := h.next (a := (0, .quiet)) (by exact trivial) rfl
  have h := h.next (a := (0, .file .absent)) (by exact trivial) rfl
  have h := h.next (a := (0, .quiet)) (by exact trivial) rfl
  have h := h.next (a := (0, .quiet)) (by exact trivial) rfl
  exact h.next (a := (0, .quiet)) (by exact trivial) rfl

/-- An update leaves a node that is not the control plane without an address. -/
theorem address_cleared : ¬∀ ops s, (registry ops).Reachable .free s → Ruled ops s.world := by
  intro h
  have hrow : ((registry addThenClear).run atFirst (added ++ [(1, .quiet), (1, .quiet),
      (1, .file .absent), (1, .quiet), (1, .quiet)])).map (fun s ↦ s.world.rows.lookup ['a']) =
      some (some { id := ['a'], name := "10.0.0.1".toList }) := by decide +kernel
  obtain ⟨s, hs, hrow⟩ := Option.map_eq_some_iff.mp hrow
  have hsteps : (registry addThenClear).Steps .free atFirst s := System.steps_of_run hs
  have hinit : (registry addThenClear).init atFirst := ⟨rfl, rfl⟩
  have hruled := h addThenClear s ⟨atFirst, hinit, hsteps⟩
  exact hruled.rules.reachable _ _ hrow (by decide) (by decide)

end SparkPulse.Nodes
