import Cascade.Proofs.Graph.Names
import Cascade.Proofs.Graph.Tour
import Cascade.Proofs.Traversal.Offer
import Cascade.Traversal.Handout

/-!
# A traversal with one client

A client that finishes each claim before it asks for the next one finds a forward traversal
idle whenever it asks.  What it is handed then is the first leaf of the graph that is left,
and finishing this claim leaves the graph without the leaf.  So the claims come in the order
in which one walk over the whole graph first visits its nodes.

`Graph.agenda` lists the claims in this order, all of them (`Hierarchy.mem_agenda`), and
`Idle.offer_cases` says what one request and one release do to it.  `drainUpTo_eq` is the
induction over all of them.
-/

namespace Cascade

variable {α : Type}

namespace Graph

/-- The claim on the node at a position. -/
def claimAt? (g : Graph α) (p : Nat) : Option (Claim α) :=
  (g.bare? p).bind fun b => b.payload.map (⟨b.id, ·⟩)

/-- The claims on the nodes in the order of their first visits. -/
def agenda (g : Graph α) : List (Claim α) := g.firstVisits.filterMap g.claimAt?

theorem Laden.claimAt?_id {g : Graph α} (hl : g.Laden) {p : Nat} (hp : p ≠ root) :
    (g.claimAt? p).map (·.id) = g.idAt? p := by
  rw [claimAt?, idAt?]
  cases hb : g.bare? p with
  | none => rfl
  | some b =>
    obtain ⟨payload, hpayload⟩ := Option.isSome_iff_exists.mp (hl hp hb)
    simp [hpayload]

/-- The IDs of the agenda are those of the nodes that are visited. -/
theorem Laden.ids_agenda {g : Graph α} (hl : g.Laden) :
    g.agenda.map (·.id) = g.idsAt g.firstVisits := by
  rw [agenda, List.map_filterMap, idsAt_eq_filterMap]
  apply List.filterMap_congr
  intro p hp
  apply hl.claimAt?_id
  simpa using (List.mem_filter.mp hp).2

/-- The agenda has the claims on all nodes but the root. -/
theorem Hierarchy.mem_agenda {g : Graph α} (hg : g.Hierarchy) {claim : Claim α} :
    claim ∈ g.agenda ↔ g.Bears claim := by
  rw [agenda, List.mem_filterMap]
  constructor
  · rintro ⟨p, hp, hclaim⟩
    obtain ⟨b, hb, hmap⟩ := Option.bind_eq_some_iff.mp hclaim
    obtain ⟨payload, hpayload, rfl⟩ := Option.map_eq_some_iff.mp hmap
    exact ⟨p, b, (hg.mem_firstVisits.mp hp).1, hb, rfl, hpayload⟩
  · rintro ⟨p, b, hp, hb, hid, hpayload⟩
    have hat : g.idAt? p = some b.id := by rw [idAt?, hb, Option.map_some]
    refine ⟨p, hg.mem_firstVisits.mpr ⟨hp, occupied_of_idAt? hat⟩, ?_⟩
    rw [claimAt?, hb, Option.bind_some, hpayload, Option.map_some, hid]

/-- The claims on the nodes that are left when one is taken out. -/
theorem Without.claimAt? {g g' : Graph α} {p : Nat} (h : g.Without p g') {q : Nat}
    (hq : q ≠ p) : g'.claimAt? q = g.claimAt? q := by
  rw [Graph.claimAt?, h.bare?, if_neg hq, Graph.claimAt?]

/-- A graph without one of its nodes carries the payloads of the others. -/
theorem Laden.without {g g' : Graph α} (hl : g.Laden) {p : Nat} (h : g.Without p g') :
    g'.Laden := by
  intro q b hq hb
  rw [h.bare?] at hb
  split at hb
  · cases hb
  · exact hl hq hb

/-- What is first on an agenda is a leaf, and the rest is the agenda of the graph without
it. -/
theorem Hierarchy.agenda_cases {g : Graph α} (hg : g.Hierarchy) (hl : g.Laden) :
    (g.agenda = [] ∧ ∀ p, g.Occupied p → p = root) ∨
      ∃ l n rest payload, g.tour g.slots.length root = l :: rest ∧ l ≠ root ∧
        g.node? l = some n ∧ n.payload = some payload ∧ g.childrenOf l = [] ∧
        ∀ g', g.Without l g' → g.agenda = ⟨n.id, payload⟩ :: g'.agenda := by
  rcases hg.firstVisits_cases with ⟨hnil, halone⟩ | ⟨l, rest, htour, hroot, hl', hleaf, hcons⟩
  · refine Or.inl ⟨?_, halone⟩
    rw [agenda, hnil]
    rfl
  · obtain ⟨n, hn⟩ := hl'.exists_node?
    obtain ⟨payload, hpayload⟩ := hl.exists_payload hroot hn
    refine Or.inr ⟨l, n, rest, payload, htour, hroot, hn, hpayload, hleaf, fun g' h => ?_⟩
    have hclaim : g.claimAt? l = some ⟨n.id, payload⟩ := by
      rw [claimAt?, bare?_of_node? hn]
      simp [Node.bare, Node.isolated, hpayload]
    rw [agenda, hcons g' h, List.filterMap_cons_some hclaim, agenda]
    congr 1
    apply List.filterMap_congr
    intro q hq
    have hq' : q ≠ l := by
      rintro rfl
      have hvisited := (List.mem_filter.mp hq).1
      rw [List.mem_eraseDups, (hg.consistent.without hroot h).visits_eq_tour] at hvisited
      exact (h.occupied_iff.mp (occupied_of_mem_tour hvisited)).1 rfl
    exact (h.claimAt? hq').symm

end Graph

namespace Traversal

/-! ## An idle traversal -/

/-- A forward traversal of which no claim is held, while all that was handed out has been
removed. -/
structure Idle (t : Traversal α) : Prop where
  forward : t.direction = .forward
  running : t.aborted = false
  free : t.held = 0
  hierarchy : t.graph.Hierarchy
  laden : t.graph.Laden
  removed : ∀ id ∈ t.visited, t.graph.position? id = none

theorem idle_start {g : Graph α} (hg : g.Hierarchy) (hl : g.Laden) :
    (start .forward g).Idle :=
  ⟨rfl, rfl, rfl, hg, hl, by simp [start]⟩

/-- A failed claim leaves a forward traversal as it is, but for the claim. -/
theorem release_false {t : Traversal α} (ht : t.direction = .forward) (id : String) :
    t.release id false = (none, { t with held := t.held - 1 }) := by
  simp [release, ht]

/-- An idle traversal is exhausted if its agenda is empty; otherwise it hands out what is
first on it, and is idle again with the rest of it once this is finished. -/
theorem Idle.offer_cases {t : Traversal α} (ht : t.Idle) :
    (t.graph.agenda = [] ∧ t.graph.ids = [] ∧ t.offer = (.exhausted, t)) ∨
      ∃ claim, t.offer =
          (.claim claim, { t with visited := claim.id :: t.visited, held := t.held + 1 }) ∧
        ∃ t', release { t with visited := claim.id :: t.visited, held := t.held + 1 } claim.id
            true = (none, t') ∧
          t'.Idle ∧ t.graph.agenda = claim :: t'.graph.agenda := by
  have hg := ht.hierarchy
  have hl : t.graph.Laden := ht.laden
  have hcons := hg.consistent
  rcases hg.agenda_cases hl with
    ⟨hnil, halone⟩ | ⟨l, n, rest, payload, htour, hroot, hn, hpayload, hleaf, hagenda⟩
  · refine Or.inl ⟨hnil, ?_, ?_⟩
    · apply List.eq_nil_iff_forall_not_mem.mpr
      intro id hid
      obtain ⟨p, hp, hat⟩ := hcons.mem_ids.mp hid
      exact hp (halone p (Graph.occupied_of_idAt? hat))
    · have hnone : t.candidateClaim? = none := by
        apply Option.eq_none_iff_forall_ne_some.mpr
        intro c hc
        obtain ⟨p, m, hm, heligible, _⟩ := candidateClaim?_some hc
        exact ((eligible_iff hcons hm).mp heligible).1 (halone p (Graph.occupied_of_node? hm))
      simp [offer, ht.running, hnone, ht.free]
  · have hid := hcons.registered.mpr (Graph.idAt?_of_node? hn)
    have heligible : t.eligible n = true := by
      refine (eligible_iff hcons hn).mpr ⟨hroot, fun hmem => ?_, ?_⟩
      · rw [ht.removed n.id hmem] at hid
        cases hid
      · rw [ht.forward]
        intro x hx
        rw [Graph.Precedes, Graph.Edge, hleaf] at hx
        cases hx
    have hcandidate : t.candidate? = some l := by
      rw [candidate?, ht.forward]
      dsimp only
      rw [Graph.postOrderSearch, Graph.run_postOrder_eq_find?, htour, List.find?_cons_of_pos]
      simp [hn, heligible]
    have hclaim : t.candidateClaim? = some ⟨n.id, payload⟩ := by
      simp [candidateClaim?, hcandidate, hn, hpayload]
    obtain ⟨_, g', _, hremove, hwithout⟩ := hcons.remove_eq_ok hid hroot
    refine Or.inr ⟨⟨n.id, payload⟩, by simp [offer, ht.running, hclaim],
      { t with visited := n.id :: t.visited, graph := g' }, ?_, ?_, hagenda g' hwithout⟩
    · simp [release, prune, ht.forward, hremove, Except.map]
    · refine ⟨ht.forward, ht.running, ht.free, ?_, hl.without hwithout, ?_⟩
      · refine hg.without_leaf hroot (fun c hc => ?_) hwithout
        rw [Graph.Edge, hleaf] at hc
        cases hc
      · intro id hmem
        show g'.position? id = none
        rw [hwithout.position?]
        rcases List.mem_cons.mp hmem with rfl | hmem
        · rw [if_pos hid]
        · rw [ht.removed id hmem]
          simp

end Traversal

namespace Handout

/-! ## One client -/

/-- What a client is answered that asks an idle traversal, and what is left when it has
finished its claim. -/
theorem ask_cases {h : Handout α} (hidle : h.traversal.Idle) (client : Nat) :
    ∃ h', h'.traversal.direction = .forward ∧
      ((h.traversal.graph.agenda = [] ∧ h.traversal.graph.ids = [] ∧
          h.ask client = (.exhausted, h') ∧ h'.traversal = h.traversal) ∨
        ∃ claim, h.ask client = (.claim claim, h') ∧ (h'.release claim.id true).1 = none ∧
          (h'.release claim.id true).2.notify.traversal.Idle ∧
          h.traversal.graph.agenda =
            claim :: (h'.release claim.id true).2.notify.traversal.graph.agenda) := by
  rcases hidle.offer_cases with
    ⟨hnil, hids, hoffer⟩ | ⟨claim, hoffer, t', hrelease, hidle', hagenda⟩
  · have hask : h.ask client = (.exhausted, (h.register client).unregister client) := by
      simp [ask, inspect, register, unregister, hoffer]
    exact ⟨(h.register client).unregister client, hidle.forward,
      Or.inl ⟨hnil, hids, hask, rfl⟩⟩
  · obtain ⟨h', hask, htraversal⟩ : ∃ h', h.ask client = (.claim claim, h') ∧
        h'.traversal = { h.traversal with
          visited := claim.id :: h.traversal.visited
          held := h.traversal.held + 1 } := by
      simp [ask, inspect, register, unregister, hoffer]
    have hnext : (h'.release claim.id true).2.notify.traversal = t' := by
      show (h'.traversal.release claim.id true).2 = t'
      rw [htraversal, hrelease]
    have hnone : (h'.release claim.id true).1 = none := by
      show (h'.traversal.release claim.id true).1 = none
      rw [htraversal, hrelease]
    rw [← hnext] at hidle' hagenda
    refine ⟨h', ?_, Or.inr ⟨claim, hask, hnone, hidle', hagenda⟩⟩
    rw [htraversal]
    exact hidle.forward

/-- A client that is alone with an idle traversal is handed the agenda from the first to the
last claim, and then nothing is left. -/
theorem drainUpTo_eq (client steps : Nat) {h : Handout α} (hidle : h.traversal.Idle)
    (hsteps : h.traversal.graph.agenda.length < steps) (order : List String) :
    ∃ left, drainUpTo client steps order h =
        (order ++ h.traversal.graph.agenda.map (·.id), false, left) ∧
      left.traversal.graph.ids = [] ∧ (left.ask client).1 = .exhausted := by
  induction steps generalizing h order with
  | zero => omega
  | succ steps ih =>
    obtain ⟨h', _, ⟨hnil, hids, hask, hsame⟩ | ⟨claim, hask, _, hidle', hagenda⟩⟩ :=
      ask_cases hidle client
    · have hleft : (h'.ask client).1 = .exhausted := by
        have hidle' : h'.traversal.Idle := hsame ▸ hidle
        obtain ⟨_, _, ⟨_, _, hask', _⟩ | ⟨_, _, _, _, hcons⟩⟩ := ask_cases hidle' client
        · rw [hask']
        · rw [hsame, hnil] at hcons
          cases hcons
      refine ⟨h', ?_, hsame ▸ hids, hleft⟩
      rw [drainUpTo, hask, hnil, List.map_nil, List.append_nil]
    · rw [hagenda, List.length_cons] at hsteps
      obtain ⟨left, heq, hleft⟩ := ih hidle' (by omega) (order ++ [claim.id])
      refine ⟨left, ?_, hleft⟩
      rw [drainUpTo, hask]
      dsimp only
      rw [heq, hagenda]
      simp

/-- One client alone with a forward traversal is handed the IDs in the order in which a walk
over the graph, children first, first visits the nodes, the root left out, and then nothing
is left. -/
theorem drain_eq {g : Graph α} (hg : g.Hierarchy) (hl : g.Laden) (client : Nat) :
    ∃ left, (start .forward g).drain client = (g.idsAt g.firstVisits, false, left) ∧
      left.traversal.graph.ids = [] ∧ (left.ask client).1 = .exhausted := by
  have hlength : g.agenda.length ≤ g.slots.length :=
    (List.length_filterMap_le ..).trans hg.consistent.length_firstVisits_le
  have h := drainUpTo_eq client (g.slots.length + 1)
    (h := start .forward g) (Traversal.idle_start hg hl) (Nat.lt_succ_of_le hlength) []
  rw [List.nil_append] at h
  rw [← hl.ids_agenda]
  exact h

end Handout

end Cascade
