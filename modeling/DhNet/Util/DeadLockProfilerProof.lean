import Mathlib.Data.List.Perm.Subperm
import DhNet.Lib.Graph
import DhNet.Util.DeadLockProfiler

/-!
# The profiler finds exactly the cycles

The nodes that the search has discovered and not finished are the path of its open calls, each node
the parent of the one before (`Search.Inv`).  An edge to a node of that path closes a cycle, and the
walk along the parents is a walk along the path.  A node is finished when all its successors are, so
finished nodes are on no cycle.

* `dfs_spec`, `checkCycle_spec`: what the search returns or reports.
* `lock_order_cycle_detection`: `PushLock` crashes exactly when its edge closes a cycle.
-/

namespace DhNet

namespace DeadLockProfiler

open Relation

/-- The edges of `m_lockHistory`. -/
def LockHistory.Edge (lockHistory : LockHistory) (a b : ℕ) : Prop :=
  b ∈ (lockHistory a).getD []

/-- The edges connect different nodes below `lockCount`. -/
structure LockHistory.WellFormed (lockHistory : LockHistory) (lockCount : ℕ) : Prop where
  left_lt : ∀ {a b}, lockHistory.Edge a b → a < lockCount
  right_lt : ∀ {a b}, lockHistory.Edge a b → b < lockCount
  ne : ∀ {a b}, lockHistory.Edge a b → a ≠ b

/-- The lines of a log that climbs to `there` along parents that are edges. -/
inductive Climbs (lockHistory : LockHistory) (parent : ℕ → Option ℕ) (there : ℕ) :
    ℕ → List (ℕ × ℕ) → Prop
  | last {now : ℕ} : parent now = some there → lockHistory.Edge there now →
      Climbs lockHistory parent there now [(there, now)]
  | step {now next : ℕ} {log : List (ℕ × ℕ)} : parent now = some next →
      lockHistory.Edge next now → Climbs lockHistory parent there next log →
      Climbs lockHistory parent there now ((next, now) :: log)

/-- A stop that is the report of a cycle: every node was visited at most once, and the log is a
cycle, along parents but for its first edge. -/
def Stop.Reports (lockHistory : LockHistory) (lockCount : ℕ) (stop : Stop) : Prop :=
  ∃ search here there log, stop = .deadlockDetected search here there log ∧
    search.visited.Nodup ∧ (∀ v ∈ search.visited, v < lockCount) ∧ lockHistory.Edge here there ∧
    Climbs lockHistory search.parent there here log ∧ Graph.Cyclic lockHistory.Edge

/-! ## The invariant of the search -/

/-- The state of the search while the calls for the nodes of `path` are open, the last one first. -/
structure Search.Inv (lockHistory : LockHistory) (lockCount : ℕ) (path : List ℕ) (s : Search) :
    Prop where
  visited_nodup : s.visited.Nodup
  visited_lt : ∀ v ∈ s.visited, v < lockCount
  discovered_iff : ∀ v, s.discoveredOrder v ≠ -1 ↔ v ∈ s.visited
  order_lt : ∀ v, s.discoveredOrder v < s.discoveredCount
  count_nonneg : 0 ≤ s.discoveredCount
  visited_of_finished : ∀ v, s.finished v = true → v ∈ s.visited
  mem_path : ∀ v, v ∈ path ↔ v ∈ s.visited ∧ s.finished v = false
  chain : path.IsChain fun a b => s.parent a = some b ∧ lockHistory.Edge b a ∧
    s.discoveredOrder b < s.discoveredOrder a
  settled : Graph.Settled lockHistory.Edge {v | s.finished v = true}

/-- What a search keeps of an earlier state. -/
structure Search.Extends (s s' : Search) : Prop where
  visited : s.visited ⊆ s'.visited
  finished : ∀ v, s.finished v = true → s'.finished v = true

theorem Search.Extends.refl (s : Search) : s.Extends s := ⟨List.Subset.refl _, fun _ h => h⟩

theorem Search.Extends.trans {s s' s'' : Search} (h : s.Extends s') (h' : s'.Extends s'') :
    s.Extends s'' :=
  ⟨List.Subset.trans h.visited h'.visited, fun v hv => h'.finished v (h.finished v hv)⟩

variable {lockHistory : LockHistory} {lockCount : ℕ} {path : List ℕ} {s s' : Search}
  {here there : ℕ}

theorem Search.inv_initial : Search.initial.Inv lockHistory lockCount [] := by
  constructor <;> simp [Search.initial, Graph.settled_empty]

theorem Search.Inv.visited_length_le (h : s.Inv lockHistory lockCount path) :
    s.visited.length ≤ lockCount := by
  have hsub : s.visited ⊆ List.range lockCount := fun v hv => List.mem_range.2 (h.visited_lt v hv)
  simpa using (h.visited_nodup.subperm hsub).length_le

theorem Search.Inv.path_pairwise (h : s.Inv lockHistory lockCount path) :
    path.Pairwise fun a b => s.discoveredOrder b < s.discoveredOrder a :=
  (List.isChain_iff_pairwise (R := fun a b => s.discoveredOrder b < s.discoveredOrder a)).1
    (h.chain.imp fun _ _ hab => hab.2.2)

theorem Search.Inv.path_nodup (h : s.Inv lockHistory lockCount path) : path.Nodup := by
  refine h.path_pairwise.imp fun hlt heq => ?_
  subst heq
  exact lt_irrefl _ hlt

theorem Search.Inv.visited_of_mem_path (h : s.Inv lockHistory lockCount path) {v : ℕ}
    (hv : v ∈ path) : v ∈ s.visited := ((h.mem_path v).1 hv).1

theorem Search.Inv.path_length_le (h : s.Inv lockHistory lockCount path) :
    path.length ≤ lockCount := by
  have hsub : path ⊆ s.visited := fun v hv => h.visited_of_mem_path hv
  exact (h.path_nodup.subperm hsub).length_le.trans h.visited_length_le

theorem Search.Inv.setParent (h : s.Inv lockHistory lockCount path) (hnew : there ∉ s.visited) :
    (s.setParent there here).Inv lockHistory lockCount path := by
  refine { h with chain := ?_ }
  refine h.chain.imp_of_mem_imp fun a b ha _ hab => ⟨?_, hab.2⟩
  have hne : a ≠ there := fun heq => hnew (heq ▸ h.visited_of_mem_path ha)
  simp only [Search.setParent, Function.update_of_ne hne, hab.1]

theorem Search.Inv.discover (h : s.Inv lockHistory lockCount path) (hnew : here ∉ s.visited)
    (hlt : here < lockCount)
    (hparent : ∀ p ∈ path.head?, s.parent here = some p ∧ lockHistory.Edge p here) :
    (s.discover here).Inv lockHistory lockCount (here :: path) := by
  have hunfinished : s.finished here = false :=
    Bool.eq_false_iff.2 fun hfin => hnew (h.visited_of_finished here hfin)
  have hcount := h.count_nonneg
  have horder : ∀ v ∈ path, (s.discover here).discoveredOrder v = s.discoveredOrder v := by
    intro v hv
    have hne : v ≠ here := fun heq => hnew (heq ▸ h.visited_of_mem_path hv)
    exact Function.update_of_ne hne _ _
  have hhere : (s.discover here).discoveredOrder here = s.discoveredCount :=
    Function.update_self _ _ _
  refine ⟨?_, ?_, fun v => ?_, fun v => ?_, ?_, ?_, fun v => ?_, ?_, h.settled⟩
  · exact List.nodup_cons.2 ⟨hnew, h.visited_nodup⟩
  · exact List.forall_mem_cons.2 ⟨hlt, h.visited_lt⟩
  · rcases eq_or_ne v here with rfl | hne
    · rw [hhere]
      simp [Search.discover]
      omega
    · simp [Search.discover, hne, ← h.discovered_iff v]
  · rcases eq_or_ne v here with rfl | hne
    · rw [hhere]
      exact Int.lt_succ _
    · have := h.order_lt v
      simp only [Search.discover, Function.update_of_ne hne]
      omega
  · simp only [Search.discover]
    omega
  · exact fun v hv => List.mem_cons_of_mem _ (h.visited_of_finished v hv)
  · rcases eq_or_ne v here with rfl | hne
    · simp [Search.discover, hunfinished]
    · simp [Search.discover, hne, h.mem_path v]
  · have hrest : path.IsChain fun a b => (s.discover here).parent a = some b ∧
        lockHistory.Edge b a ∧
        (s.discover here).discoveredOrder b < (s.discover here).discoveredOrder a := by
      refine h.chain.imp_of_mem_imp fun a b ha hb hab => ?_
      rw [horder a ha, horder b hb]
      exact hab
    cases path with
    | nil => exact List.isChain_singleton _
    | cons p path =>
      obtain ⟨hp, hedge⟩ := hparent p rfl
      refine List.isChain_cons_cons.2 ⟨⟨hp, hedge, ?_⟩, hrest⟩
      rw [hhere, horder p List.mem_cons_self]
      exact h.order_lt p

theorem Search.Inv.finish (h : s.Inv lockHistory lockCount (here :: path))
    (hsucc : ∀ b, lockHistory.Edge here b → s.finished b = true) :
    (s.finish here).Inv lockHistory lockCount path := by
  obtain ⟨hvisited, hunfinished⟩ := (h.mem_path here).1 List.mem_cons_self
  have hnodup := List.nodup_cons.1 h.path_nodup
  have hset : {v | (s.finish here).finished v = true} =
      insert here {v | s.finished v = true} := by
    ext v
    rcases eq_or_ne v here with rfl | hne
    · simp [Search.finish]
    · simp [Search.finish, hne]
  refine ⟨h.visited_nodup, h.visited_lt, h.discovered_iff, h.order_lt, h.count_nonneg,
    fun v hv => ?_, fun v => ?_, h.chain.tail, ?_⟩
  · rcases eq_or_ne v here with rfl | hne
    · exact hvisited
    · exact h.visited_of_finished v (by simpa [Search.finish, hne] using hv)
  · rcases eq_or_ne v here with rfl | hne
    · simp [Search.finish, hnodup.1]
    · have := h.mem_path v
      simpa [Search.finish, hne] using this
  · rw [hset]
    exact h.settled.insert (by simp [hunfinished]) hsucc

/-! ## The walk along the parents -/

theorem logPath_spec {parent : ℕ → Option ℕ} {rest : List ℕ} {fuel : ℕ}
    (hchain : (here :: rest).IsChain fun a b => parent a = some b ∧ lockHistory.Edge b a)
    (hthere : there ∈ rest) (hfuel : rest.length ≤ fuel) :
    ∃ log, logPath parent there fuel here = .ok log ∧
      Climbs lockHistory parent there here log := by
  induction rest generalizing here fuel with
  | nil => simp at hthere
  | cons next rest ih =>
    obtain ⟨⟨hparent, hedge⟩, htail⟩ := List.isChain_cons_cons.1 hchain
    cases fuel with
    | zero => simp at hfuel
    | succ fuel =>
      simp only [logPath, hparent]
      by_cases hend : next = there
      · subst hend
        exact ⟨_, if_pos rfl, .last hparent hedge⟩
      · have hmem : there ∈ rest := (List.mem_cons.1 hthere).resolve_left (Ne.symm hend)
        obtain ⟨log, hlog, hclimbs⟩ := ih htail hmem (by simpa using hfuel)
        exact ⟨(next, here) :: log, by rw [if_neg hend, hlog]; rfl, .step hparent hedge hclimbs⟩

/-! ## The search -/

/-- What a call that goes on with the search in state `s`, with `path` open, may return: a state
with the same open calls and the nodes of `done` finished, or the report of a cycle. -/
def Searches (lockHistory : LockHistory) (lockCount : ℕ) (path : List ℕ) (s : Search)
    (done : ℕ → Prop) : Except Stop Search → Prop
  | .ok s' => s'.Inv lockHistory lockCount path ∧ s.Extends s' ∧ ∀ v, done v → s'.finished v = true
  | .error stop => stop.Reports lockHistory lockCount

theorem Searches.of_extends {done : ℕ → Prop} {x : Except Stop Search}
    (h : Searches lockHistory lockCount path s' done x) (hext : s.Extends s') :
    Searches lockHistory lockCount path s done x := by
  cases x with
  | ok s'' => exact ⟨h.1, hext.trans h.2.1, h.2.2⟩
  | error stop => exact h

theorem Searches.bind {done done' : ℕ → Prop} {path' : List ℕ} {x : Except Stop Search}
    {k : Search → Except Stop Search} (h : Searches lockHistory lockCount path s done x)
    (hk : ∀ s', s'.Inv lockHistory lockCount path → s.Extends s' →
      (∀ v, done v → s'.finished v = true) →
      Searches lockHistory lockCount path' s' done' (k s')) :
    Searches lockHistory lockCount path' s done' (x >>= k) := by
  cases x with
  | ok s' => exact (hk s' h.1 h.2.1 h.2.2).of_extends h.2.1
  | error stop => exact h

theorem Searches.and_left {done done' : ℕ → Prop} {x : Except Stop Search}
    (h : Searches lockHistory lockCount path s done x)
    (hdone : ∀ v, done' v → done v ∨ s.finished v = true) :
    Searches lockHistory lockCount path s done' x := by
  cases x with
  | ok s' =>
    exact ⟨h.1, h.2.1, fun v hv => (hdone v hv).elim (h.2.2 v) (h.2.1.finished v)⟩
  | error stop => exact h

/-- A loop each round of which finishes its node. -/
theorem foldlM_spec {f : Search → ℕ → Except Stop Search} {ids : List ℕ}
    (h : s.Inv lockHistory lockCount path)
    (hf : ∀ s', s'.Inv lockHistory lockCount path → s.Extends s' → ∀ v ∈ ids,
      Searches lockHistory lockCount path s' (· = v) (f s' v)) :
    Searches lockHistory lockCount path s (· ∈ ids) (ids.foldlM f s) := by
  induction ids generalizing s with
  | nil => exact ⟨h, .refl s, by simp⟩
  | cons v ids ih =>
    rw [List.foldlM_cons]
    refine (hf s h (.refl s) v List.mem_cons_self).bind fun s' hinv hext hdone => ?_
    refine (ih hinv fun s'' hinv' hext' w hw =>
      hf s'' hinv' (hext.trans hext') w (List.mem_cons_of_mem _ hw)).and_left fun w hw => ?_
    rcases List.mem_cons.1 hw with rfl | hw
    · exact .inr (hdone _ rfl)
    · exact .inl hw

theorem visit_spec {f : ℕ → Search → Except Stop Search}
    (hwf : lockHistory.WellFormed lockCount)
    (hf : there ∉ s.visited → Searches lockHistory lockCount (here :: path)
      (s.setParent there here) (· = there) (f there (s.setParent there here)))
    (h : s.Inv lockHistory lockCount (here :: path)) (hedge : lockHistory.Edge here there) :
    Searches lockHistory lockCount (here :: path) s (· = there)
      (visit lockCount f here s there) := by
  unfold visit
  split_ifs with hnew hlater hopen
  · have hnew : there ∉ s.visited := by
      rw [← h.discovered_iff]
      exact not_not.2 hnew
    exact (hf hnew).of_extends ⟨List.Subset.refl _, fun _ hv => hv⟩
  · -- A node of the path would have been discovered no later than `here`.
    have hvisited : there ∈ s.visited := (h.discovered_iff there).1 hnew
    refine ⟨h, .refl s, fun v hv => ?_⟩
    subst hv
    by_contra hunfinished
    have hpath := (h.mem_path v).2 ⟨hvisited, Bool.eq_false_iff.2 hunfinished⟩
    rcases List.mem_cons.1 hpath with rfl | hpath
    · exact lt_irrefl _ hlater
    · exact lt_asymm hlater ((List.pairwise_cons.1 h.path_pairwise).1 v hpath)
  · have hvisited : there ∈ s.visited := (h.discovered_iff there).1 hnew
    have hpath : there ∈ path :=
      (List.mem_cons.1 ((h.mem_path there).2 ⟨hvisited, hopen⟩)).resolve_left
        (Ne.symm (hwf.ne hedge))
    have hlength : path.length ≤ lockCount := (Nat.le_succ _).trans h.path_length_le
    obtain ⟨log, hlog, hclimbs⟩ := logPath_spec (h.chain.imp fun _ _ hab => ⟨hab.1, hab.2.1⟩)
      hpath hlength
    rw [hlog]
    refine ⟨s, here, there, log, rfl, h.visited_nodup, h.visited_lt, hedge, hclimbs, here, ?_⟩
    exact .trans (.single hedge)
      (Graph.transGen_of_climb (h.chain.imp fun _ _ hab => hab.2.1) hpath)
  · refine ⟨h, .refl s, fun v hv => ?_⟩
    subst hv
    exact Bool.eq_true_of_not_eq_false hopen

/-- `DFS` on a node that was not discovered. -/
theorem dfs_spec {fuel : ℕ} (hwf : lockHistory.WellFormed lockCount)
    (h : s.Inv lockHistory lockCount path) (hnew : here ∉ s.visited) (hlt : here < lockCount)
    (hparent : ∀ p ∈ path.head?, s.parent here = some p ∧ lockHistory.Edge p here)
    (hfuel : lockCount < fuel + s.visited.length) :
    Searches lockHistory lockCount path s (· = here) (dfs lockHistory lockCount fuel here s) := by
  induction fuel generalizing path s here with
  | zero =>
    have := h.visited_length_le
    omega
  | succ fuel ih =>
    have hundiscovered : s.discoveredOrder here = -1 :=
      not_not.1 (mt (h.discovered_iff here).1 hnew)
    have hdiscover := h.discover hnew hlt hparent
    have hext : s.Extends (s.discover here) := ⟨List.subset_cons_self _ _, fun _ hv => hv⟩
    -- The call ends when all successors are finished.
    have hend : ∀ s', s'.Inv lockHistory lockCount (here :: path) →
        (∀ b, lockHistory.Edge here b → s'.finished b = true) →
        Searches lockHistory lockCount path s' (· = here) (.ok (s'.finish here)) := by
      intro s' hinv hsucc
      refine ⟨hinv.finish hsucc, ⟨List.Subset.refl _, fun v hv => ?_⟩, fun v hv => ?_⟩
      · rcases eq_or_ne v here with rfl | hne
        · exact Function.update_self _ _ _
        · exact (Function.update_of_ne hne _ _).trans hv
      · subst hv
        exact Function.update_self _ _ _
    simp only [dfs, hundiscovered, ne_eq, not_true_eq_false, if_false]
    cases hset : lockHistory here with
    | none =>
      exact (hend _ hdiscover fun b hb => by simp [LockHistory.Edge, hset] at hb).of_extends hext
    | some nextSet =>
      have hedge : ∀ b, lockHistory.Edge here b ↔ b ∈ nextSet := by
        simp [LockHistory.Edge, hset]
      refine Searches.of_extends ?_ hext
      refine (foldlM_spec hdiscover fun s' hinv hext' v hv => ?_).bind
        fun s' hinv _ hdone => hend s' hinv fun b hb => hdone b ((hedge b).1 hb)
      have hlonger := (hdiscover.visited_nodup.subperm hext'.visited).length_le
      rw [Search.discover, List.length_cons] at hlonger
      refine visit_spec hwf (fun hunvisited => ?_) hinv ((hedge v).2 hv)
      refine ih (hinv.setParent hunvisited) hunvisited (hwf.right_lt ((hedge v).2 hv)) ?_ ?_
      · rintro p ⟨⟩
        exact ⟨Function.update_self _ _ _, (hedge v).2 hv⟩
      · change lockCount < fuel + s'.visited.length
        omega

/-- The search visits every node once and then there is no cycle, or it reports a cycle. -/
theorem checkCycle_spec (hwf : lockHistory.WellFormed lockCount) :
    (∃ search, checkCycle lockHistory lockCount = .ok search ∧
      search.visited.Perm (List.range lockCount) ∧ ¬ Graph.Cyclic lockHistory.Edge) ∨
    ∃ stop, checkCycle lockHistory lockCount = .error stop ∧
      stop.Reports lockHistory lockCount := by
  have hloop : Searches lockHistory lockCount [] .initial (· ∈ List.range lockCount)
      (checkCycle lockHistory lockCount) := by
    refine foldlM_spec Search.inv_initial fun s hinv _ v hv => ?_
    by_cases hvisited : v ∈ s.visited
    · have hfinished : s.finished v = true := by
        by_contra hopen
        have := (hinv.mem_path v).2 ⟨hvisited, Bool.eq_false_iff.2 hopen⟩
        simp at this
      rw [dfs, if_pos ((hinv.discovered_iff v).2 hvisited)]
      refine ⟨hinv, .refl s, fun w hw => ?_⟩
      subst hw
      exact hfinished
    · exact dfs_spec hwf hinv hvisited (List.mem_range.1 hv) (by simp) (by omega)
  cases hres : checkCycle lockHistory lockCount with
  | error stop =>
    rw [hres] at hloop
    exact .inr ⟨stop, rfl, hloop⟩
  | ok search =>
    rw [hres] at hloop
    obtain ⟨hinv, -, hdone⟩ := hloop
    refine .inl ⟨search, rfl, ?_, ?_⟩
    · refine (List.perm_ext_iff_of_nodup hinv.visited_nodup List.nodup_range).2 fun v => ?_
      exact ⟨fun hv => List.mem_range.2 (hinv.visited_lt v hv),
        fun hv => hinv.visited_of_finished v (hdone v hv)⟩
    · exact hinv.settled.not_cyclic fun a b hab =>
        hdone a (List.mem_range.2 (hwf.left_lt hab))

/-! ## The calls -/

section Calls

variable {T N : Type*}

/-- An id that was given to a name. -/
def State.Named (s : State T N) (id : ℕ) : Prop := (s.idToName id).isSome

/-- The ids in use have names and are below the size of `m_nameToId`, which are the sizes of the
vectors of the search, and there is no cycle as long as the process runs. -/
structure State.Inv (s : State T N) : Prop where
  id_named : ∀ {name id}, s.nameToId name = some id → s.Named id
  stack_named : ∀ {t id}, id ∈ s.lockStack t → s.Named id
  edge_named : ∀ {a b}, s.lockHistory.Edge a b → s.Named a ∧ s.Named b
  edge_ne : ∀ {a b}, s.lockHistory.Edge a b → a ≠ b
  named_lt : ∀ {id}, s.Named id → id < s.lockCount
  zero_named : 0 < s.lockCount → s.Named 0
  acyclic : s.stop = none → ¬ Graph.Cyclic s.lockHistory.Edge

theorem State.Inv.wellFormed {s : State T N} (h : s.Inv) : s.lockHistory.WellFormed s.lockCount :=
  ⟨fun hab => h.named_lt (h.edge_named hab).1, fun hab => h.named_lt (h.edge_named hab).2,
    h.edge_ne⟩

section Edges

variable {s : State T N} {prevId lockId : ℕ}

theorem inv_initial : (State.initial : State T N).Inv := by
  have hedge : ∀ a b, ¬ (State.initial : State T N).lockHistory.Edge a b := by
    simp [State.initial, LockHistory.Edge]
  refine ⟨by simp [State.initial], by simp [State.initial], fun h => (hedge _ _ h).elim,
    fun h => (hedge _ _ h).elim, by simp [State.initial, State.Named], by simp [State.initial],
    fun _ => ?_⟩
  exact Graph.settled_empty.not_cyclic fun a b hab => (hedge a b hab).elim

theorem State.Inv.stop (h : s.Inv) (stop : Stop) : { s with stop := some stop }.Inv :=
  ⟨h.id_named, h.stack_named, h.edge_named, h.edge_ne, h.named_lt, h.zero_named, nofun⟩

theorem edge_insertEdge {a b : ℕ} : (s.insertEdge prevId lockId).lockHistory.Edge a b ↔
    s.lockHistory.Edge a b ∨ a = prevId ∧ b = lockId := by
  rcases eq_or_ne a prevId with rfl | hne
  · simp [State.insertEdge, LockHistory.Edge, or_comm]
  · simp [State.insertEdge, LockHistory.Edge, hne]

/-- The edge is in the graph; only the absence of cycles has to be checked again. -/
theorem State.Inv.insertEdge (h : s.Inv) (hprev : s.Named prevId) (hid : s.Named lockId)
    (hne : lockId ≠ prevId) (stop : Option Stop)
    (hacyclic : stop = none → ¬ Graph.Cyclic (s.insertEdge prevId lockId).lockHistory.Edge) :
    { s.insertEdge prevId lockId with stop := stop }.Inv := by
  refine ⟨h.id_named, h.stack_named, fun hab => ?_, fun hab => ?_, h.named_lt, h.zero_named,
    hacyclic⟩
  · rcases edge_insertEdge.1 hab with hab | ⟨rfl, rfl⟩
    · exact h.edge_named hab
    · exact ⟨hprev, hid⟩
  · rcases edge_insertEdge.1 hab with hab | ⟨rfl, rfl⟩
    · exact h.edge_ne hab
    · exact hne.symm

end Edges

section Names

variable [DecidableEq N] {s : State T N} {name : N}

/-- The name gets an id. -/
theorem State.Inv.register (h : s.Inv) (name : N) :
    (s.register name).Inv ∧ (s.register name).Named (s.lockId name) := by
  unfold State.register State.lockId
  cases hname : s.nameToId name with
  | some id => exact ⟨h, h.id_named hname⟩
  | none =>
    have hnamed : ∀ id, (s.idToName id).isSome →
        (Function.update s.idToName s.lockCount (some name) id).isSome := by
      intro id hid
      rcases eq_or_ne id s.lockCount with rfl | hne
      · simp
      · rwa [Function.update_of_ne hne]
    have hnew : (Function.update s.idToName s.lockCount (some name) s.lockCount).isSome := by
      simp
    refine ⟨⟨fun {other id} hid => ?_, fun hid => hnamed _ (h.stack_named hid),
      fun hab => ⟨hnamed _ (h.edge_named hab).1, hnamed _ (h.edge_named hab).2⟩, h.edge_ne,
      fun {id} hid => ?_, fun _ => ?_, h.acyclic⟩, hnew⟩
    · rcases eq_or_ne other name with rfl | hne
      · obtain rfl : s.lockCount = id := by simpa using hid
        exact hnew
      · exact hnamed _ (h.id_named (by simpa [hne] using hid))
    · rcases eq_or_ne id s.lockCount with rfl | hne
      · exact Nat.lt_succ_self _
      · have hold : s.Named id := by simpa [State.Named, hne] using hid
        exact (h.named_lt hold).trans (Nat.lt_succ_self _)
    · rcases Nat.eq_zero_or_pos s.lockCount with hzero | hpos
      · exact hzero ▸ hnew
      · exact hnamed _ (h.zero_named hpos)

theorem lockHistory_register : (s.register name).lockHistory = s.lockHistory := by
  unfold State.register
  cases s.nameToId name <;> rfl

theorem lockStack_register : (s.register name).lockStack = s.lockStack := by
  unfold State.register
  cases s.nameToId name <;> rfl

theorem stop_register : (s.register name).stop = s.stop := by
  unfold State.register
  cases s.nameToId name <;> rfl

/-- An unknown name gets the id 0, which has a name if there is one at all. -/
theorem State.Inv.lookup (h : s.Inv) (name : N) (hpos : 0 < s.lockCount) : (s.lookup name).Inv := by
  unfold State.lookup
  cases hname : s.nameToId name with
  | some id => exact h
  | none =>
    refine ⟨fun {other id} hid => ?_, h.stack_named, h.edge_named, h.edge_ne,
      fun hid => (h.named_lt hid).trans (Nat.lt_succ_self _), fun _ => h.zero_named hpos,
      h.acyclic⟩
    rcases eq_or_ne other name with rfl | hne
    · obtain rfl : 0 = id := by simpa using hid
      exact h.zero_named hpos
    · exact h.id_named (by simpa [hne] using hid)

end Names

section Stacks

variable [DecidableEq T] {s : State T N} {t : T} {prevId lockId : ℕ}

theorem State.Inv.push (h : s.Inv) (hid : s.Named lockId) : (s.push t lockId).Inv := by
  refine ⟨h.id_named, fun {u id} hmem => ?_, h.edge_named, h.edge_ne, h.named_lt, h.zero_named,
    h.acyclic⟩
  rcases eq_or_ne u t with rfl | hne
  · rcases List.mem_cons.1 (by simpa [State.push] using hmem) with rfl | hmem
    · exact hid
    · exact h.stack_named hmem
  · exact h.stack_named (by simpa [State.push, hne] using hmem)

/-- `PushLock` on top of `prevId` keeps the invariant, and when it does not return it reports a
cycle. -/
theorem State.Inv.pushOn (h : s.Inv) (hrunning : s.stop = none) (hprev : s.Named prevId)
    (hid : s.Named lockId) :
    (s.pushOn t prevId lockId).Inv ∧ ∀ stop, (s.pushOn t prevId lockId).stop = some stop →
      stop.Reports (s.pushOn t prevId lockId).lockHistory s.lockCount := by
  have hpush : (s.push t lockId).Inv ∧ ∀ stop, (s.push t lockId).stop = some stop →
      stop.Reports (s.push t lockId).lockHistory s.lockCount := by
    refine ⟨h.push hid, fun stop hstop => ?_⟩
    rw [State.push, hrunning] at hstop
    cases hstop
  unfold State.pushOn
  split_ifs with hsame hknown
  · exact hpush
  · exact hpush
  · have hwf : (s.insertEdge prevId lockId).lockHistory.WellFormed s.lockCount :=
      (h.insertEdge hprev hid hsame (some .endless) nofun).wellFormed
    rcases checkCycle_spec hwf with ⟨search, hok, -, hacyclic⟩ | ⟨stop, herror, hreports⟩
    · simp only [hok]
      have hinv : (s.insertEdge prevId lockId).Inv :=
        h.insertEdge hprev hid hsame s.stop fun _ => hacyclic
      refine ⟨hinv.push hid, fun stop hstop => ?_⟩
      rw [State.push, State.insertEdge, hrunning] at hstop
      cases hstop
    · simp only [herror]
      refine ⟨h.insertEdge hprev hid hsame (some stop) nofun, fun stop' hstop => ?_⟩
      cases hstop
      exact hreports

theorem lockCount_pushOn : (s.pushOn t prevId lockId).lockCount = s.lockCount := by
  unfold State.pushOn
  split_ifs
  · rfl
  · rfl
  · cases checkCycle (s.insertEdge prevId lockId).lockHistory s.lockCount <;> rfl

theorem edge_pushOn {a b : ℕ} : (s.pushOn t prevId lockId).lockHistory.Edge a b ↔
    s.lockHistory.Edge a b ∨ a = prevId ∧ b = lockId ∧ a ≠ b := by
  unfold State.pushOn
  split_ifs with hsame hknown
  · subst hsame
    refine ⟨.inl, fun h => h.elim id ?_⟩
    rintro ⟨rfl, rfl, hne⟩
    exact absurd rfl hne
  · refine ⟨.inl, fun h => h.elim id ?_⟩
    rintro ⟨rfl, rfl, -⟩
    exact hknown
  · have hedge : (s.insertEdge prevId lockId).lockHistory.Edge a b ↔
        s.lockHistory.Edge a b ∨ a = prevId ∧ b = lockId ∧ a ≠ b := by
      rw [edge_insertEdge]
      refine or_congr_right ⟨?_, fun h => ⟨h.1, h.2.1⟩⟩
      rintro ⟨rfl, rfl⟩
      exact ⟨rfl, rfl, Ne.symm hsame⟩
    cases checkCycle (s.insertEdge prevId lockId).lockHistory s.lockCount <;> exact hedge

end Stacks

variable [DecidableEq T] [DecidableEq N] {s s' : State T N} {t : T} {name : N}
  {prevId lockId : ℕ}

/-- `PushLock` inserts the edge from the top of the stack, if the ids differ. -/
theorem edge_pushLock {a b : ℕ} : (pushLock s t name).lockHistory.Edge a b ↔
    s.lockHistory.Edge a b ∨ a ∈ (s.lockStack t).head? ∧ b = s.lockId name ∧ a ≠ b := by
  unfold pushLock
  cases hstack : s.lockStack t with
  | nil => simp [State.push, lockHistory_register]
  | cons prevId rest =>
    simp only [edge_pushOn, lockHistory_register, List.head?_cons, Option.mem_def,
      Option.some.injEq, eq_comm]

theorem State.Inv.pushLock (h : s.Inv) (hrunning : s.stop = none) (t : T) (name : N) :
    (pushLock s t name).Inv ∧ ∀ stop, (pushLock s t name).stop = some stop →
      stop.Reports (pushLock s t name).lockHistory (pushLock s t name).lockCount := by
  obtain ⟨hinv, hid⟩ := h.register name
  unfold DeadLockProfiler.pushLock
  cases hstack : s.lockStack t with
  | nil =>
    refine ⟨hinv.push hid, fun stop hstop => ?_⟩
    rw [State.push, stop_register, hrunning] at hstop
    cases hstop
  | cons prevId rest =>
    have hprev : (s.register name).Named prevId :=
      hinv.stack_named (t := t) (by simp [lockStack_register, hstack])
    obtain ⟨hinv', hstops⟩ := hinv.pushOn (t := t) (stop_register.trans hrunning) hprev hid
    refine ⟨hinv', fun stop hstop => ?_⟩
    simp only [lockCount_pushOn]
    exact hstops stop hstop

theorem State.Inv.popLock (h : s.Inv) (t : T) (name : N) : (popLock s t name).Inv := by
  unfold DeadLockProfiler.popLock
  cases hstack : s.lockStack t with
  | nil => exact h.stop _
  | cons top rest =>
    have htop : s.Named top := h.stack_named (t := t) (by simp [hstack])
    have hlookup := h.lookup name (Nat.zero_lt_of_lt (h.named_lt htop))
    have hsame : (s.lookup name).lockStack = s.lockStack := by
      unfold State.lookup
      cases s.nameToId name <;> rfl
    simp only
    split_ifs
    · exact hlookup.stop _
    · refine ⟨hlookup.id_named, fun {u id} hid => ?_, hlookup.edge_named, hlookup.edge_ne,
        hlookup.named_lt, hlookup.zero_named, hlookup.acyclic⟩
      refine hlookup.stack_named (t := u) ?_
      rw [hsame]
      rcases eq_or_ne u t with rfl | hne
      · rw [hstack]
        exact List.mem_cons_of_mem _ (by simpa using hid)
      · simpa [hne] using hid

theorem inv_of_reachable (hreach : (system T N).Reachable s) : s.Inv := by
  refine hreach.invariant (fun s hs => hs ▸ inv_initial) fun s a s' hinv hstep => ?_
  obtain ⟨t, op⟩ := a
  simp only [system, step] at hstep
  split_ifs at hstep with hstop
  have hrunning : s.stop = none := by simpa using hstop
  cases op with
  | pushLock name =>
    obtain rfl : pushLock s t name = s' := by simpa using hstep
    exact (hinv.pushLock hrunning t name).1
  | popLock name =>
    obtain rfl : popLock s t name = s' := by simpa using hstep
    exact hinv.popLock t name

/-- Whatever calls came before, `PushLock` crashes exactly when the edge it inserts closes a cycle:
then the log is that cycle, and otherwise the search visits every node once. -/
theorem lock_order_cycle_detection {s : State T N} (hreach : (system T N).Reachable s)
    (hrunning : s.stop = none) (t : T) (name : N) :
    let s' := pushLock s t name
    ¬ Graph.Cyclic s.lockHistory.Edge ∧
    (∀ a b, s'.lockHistory.Edge a b ↔
      s.lockHistory.Edge a b ∨ a ∈ (s.lockStack t).head? ∧ b = s.lockId name ∧ a ≠ b) ∧
    ((∃ search here there log, s'.stop = some (.deadlockDetected search here there log)) ↔
      Graph.Cyclic s'.lockHistory.Edge) ∧
    (s'.stop = none → ¬ Graph.Cyclic s'.lockHistory.Edge ∧
      ∃ search, checkCycle s'.lockHistory s'.lockCount = .ok search ∧
        search.visited.Perm (List.range s'.lockCount)) ∧
    ∀ stop, s'.stop = some stop → stop.Reports s'.lockHistory s'.lockCount := by
  intro s'
  have hinv := inv_of_reachable hreach
  obtain ⟨hinv', hreports⟩ := hinv.pushLock hrunning t name
  refine ⟨hinv.acyclic hrunning, fun a b => edge_pushLock, ⟨?_, fun hcyclic => ?_⟩,
    fun hnone => ⟨hinv'.acyclic hnone, ?_⟩, hreports⟩
  · rintro ⟨search, here, there, log, hstop⟩
    obtain ⟨-, -, -, -, -, -, -, -, -, hcyclic⟩ := hreports _ hstop
    exact hcyclic
  · cases hstop : s'.stop with
    | none => exact absurd hcyclic (hinv'.acyclic hstop)
    | some stop =>
      obtain ⟨search, here, there, log, rfl, -⟩ := hreports stop hstop
      exact ⟨search, here, there, log, rfl⟩
  · rcases checkCycle_spec hinv'.wellFormed with ⟨search, hok, hperm, -⟩ | ⟨stop, -, hstop⟩
    · exact ⟨search, hok, hperm⟩
    · obtain ⟨-, -, -, -, -, -, -, -, -, hcyclic⟩ := hstop
      exact absurd hcyclic (hinv'.acyclic hnone)

/-- After one thread asked for 0 and then 1, the other one is stopped when it asks for 0 on top of
1. -/
theorem lock_order_cycle_detection_two_locks : ∃ s : State Bool ℕ, s.lockStack false = [1, 0] ∧
    s.lockStack true = [1] ∧ s.stop = none ∧
    ∃ search here there log,
      (pushLock s true 0).stop = some (.deadlockDetected search here there log) := by
  have hrun : ((system Bool ℕ).run .initial
      [(false, .pushLock 0), (false, .pushLock 1), (true, .pushLock 1)]).any (fun s =>
        decide (s.lockStack false = [1, 0] ∧ s.lockStack true = [1] ∧ s.stop.isNone ∧
          s.lockHistory 0 = some [1] ∧ s.lockId 0 = 0)) = true := by
    decide +kernel
  obtain ⟨s, hs, hprop⟩ := (Option.any_eq_true _ _).1 hrun
  obtain ⟨hfalse, htrue, hstop, hhistory, hid⟩ := of_decide_eq_true hprop
  have hrunning : s.stop = none := by simpa using hstop
  obtain ⟨-, hedge, hcrash, -⟩ := lock_order_cycle_detection
    (Transition.System.reachable_of_run (.init rfl) hs) hrunning true 0
  refine ⟨s, hfalse, htrue, hrunning, hcrash.2 ⟨0, .tail (.single ((hedge 0 1).2 ?_))
    ((hedge 1 0).2 ?_)⟩⟩
  · exact .inl (by simp [LockHistory.Edge, hhistory])
  · exact .inr (by simp [htrue, hid])

end Calls

end DeadLockProfiler

end DhNet
