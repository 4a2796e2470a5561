import Cascade.Proofs.Run.Action
import Cascade.Proofs.Run.Conduct
import Cascade.Proofs.Run.Termination

/-!
# What a crew does to the store

The workers of a run share one store, and each of them may set or drop the
entry of the dependency that it is at.  No two of them are ever at the same
one, so what is stored at any time can be told from what each has done so far:
`Crew.notes` lists, for each dependency that was handed out, what its action has
done to its entry.  The invariant `Crew.Filed` says that every entry is as noted,
and that there is no other difference from the entries at the beginning.
-/

namespace Cascade.Run

open Traversal (handedOut)

variable {φ β : Type}

/-- Of what kind the store is, and what the action on a claim has done to its
entry once its steps have seen some worlds. -/
structure Filing (φ β : Type) where
  kind : Stored φ → Prop
  mark : Claim Dependency → List (World φ β) → Option (Option String)

/-! ## Notes -/

/-- What the action of a deed has done to the entry of its ID. -/
def Deed.note (f : Filing φ β) (deed : Deed φ β) : String × Option (Option String) :=
  (deed.claim.id, match deed.fate with
    | .acted seen _ => f.mark deed.claim seen
    | _ => none)

/-- What an action that is not over has done so far. -/
def Duty.note? (f : Filing φ β) : Duty φ β → Option (String × Option (Option String))
  | .working claim (.firing .before _) => some (claim.id, none)
  | .working claim .beginning => some (claim.id, none)
  | .working claim (.acting seen _) => some (claim.id, f.mark claim seen)
  | _ => none

theorem Duty.note?_fst (f : Filing φ β) (duty : Duty φ β) :
    (duty.note? f).map (·.1) = duty.undone? := by
  cases duty with
  | working claim post =>
    cases post with
    | firing occasion hooks => cases occasion <;> rfl
    | _ => rfl
  | _ => rfl

/-! ## Plans -/

variable [FileSystem φ]

/-- The store can be relied upon. -/
def Filing.holds (f : Filing φ β) (w : World φ β) : Prop := f.kind w.stored

/-- What is asked of hooks and actions is to leave the store as it is, or in
its kind at least. -/
def Filing.conduct (f : Filing φ β) : Conduct φ β := ⟨f.holds, fun _ => True, fun _ _ => True⟩

/-- The hooks of a plan leave the store alone, and its actions do what the
marks say. -/
structure Plan.Files (p : Plan φ β) (g : Graph Dependency) (f : Filing φ β) : Prop where
  hooks : ∀ phase d, (p.call phase d).Obeys f.holds (World.Keeps f.kind) fun _ => True
  actions : ∀ claim, g.Bears claim → (p.performing claim.payload).Marks f.holds
    (World.Keeps f.kind) (World.Sets f.kind claim.id) (f.mark claim)
  unmarked : ∀ claim, f.mark claim [] = none

theorem Plan.Files.conducts {p : Plan φ β} {g : Graph Dependency} {f : Filing φ β}
    (hp : p.Files g f) : p.Conducts g f.conduct where
  hooks phase d := (hp.hooks phase d).mono (fun _ h => h) (fun _ _ _ h => h.1) fun _ h => h
  actions claim hb _ := (hp.actions claim hb).obeys (fun _ _ h => h.1) fun _ _ _ h => h.1
  log _ _ h := h
  started _ _ h := h

/-! ## What is noted is what is stored -/

/-- What a worker has done and has left to do agrees with its note. -/
def Duty.Filed (f : Filing φ β) (base : String → Option String) : Duty φ β → Prop
  | .working _ (.firing _ hooks) => hooks.Obeys f.holds (World.Keeps f.kind) fun _ => True
  | .working claim (.acting seen left) =>
    left.Marks f.holds (World.Keeps f.kind) (World.Sets f.kind claim.id)
        (fun more => f.mark claim (seen ++ more)) ∧
      ∀ w ∈ seen.head?, w.stored.entry claim.id = base claim.id
  | _ => True

/-- An action first saw the entry of its ID as it was at the beginning. -/
def Deed.Filed (base : String → Option String) (deed : Deed φ β) : Prop :=
  match deed.fate with
  | .acted seen _ => ∀ w ∈ seen.head?, w.stored.entry deed.claim.id = base deed.claim.id
  | _ => True

namespace Crew

/-- What the actions on the dependencies that were handed out have done. -/
def notes (f : Filing φ β) (c : Crew φ β) : List (String × Option (Option String)) :=
  c.account.deeds.map (·.note f) ++ c.duties.filterMap (·.note? f)

/-- All entries are as noted. -/
structure Filed (f : Filing φ β) (base : String → Option String) (c : Crew φ β) : Prop where
  noted : ∀ note ∈ c.notes f, c.account.world.stored.entry note.1 = note.2.getD (base note.1)
  others : ∀ id, id ∉ (c.notes f).map (·.1) → c.account.world.stored.entry id = base id
  duties : ∀ duty ∈ c.duties, duty.Filed f base
  deeds : ∀ deed ∈ c.account.deeds, deed.Filed base

omit [FileSystem φ] in
/-- There is one note on each dependency that was handed out. -/
theorem Recorded.notes_perm {p : Plan φ β} {trouble : Prop} {c : Crew φ β}
    (hr : c.Recorded p trouble) (f : Filing φ β) :
    (handedOut c.session.history).Perm ((c.notes f).map (·.1)) := by
  have hduties : (c.duties.filterMap (·.note? f)).map (·.1) = c.duties.filterMap Duty.undone? := by
    rw [List.map_filterMap]
    congr 1
    funext duty
    exact Duty.note?_fst f duty
  rw [notes, List.map_append, hduties, List.map_map]
  exact hr.balance

namespace Filed

variable {p : Plan φ β} {g : Graph Dependency} {f : Filing φ β} {k : Conduct φ β}
  {base : String → Option String} {c c' : Crew φ β} {i : Nat}

theorem start (direction : Direction) (g : Graph Dependency) (workers : Nat) {w : World φ β}
    (hbase : w.stored.entry = base) : (Crew.start direction g workers w).Filed f base := by
  have hnotes : (Crew.start direction g workers w).notes f = [] := by
    simp [notes, Crew.start, Duty.note?]
  refine ⟨?_, fun id _ => congrFun hbase id, fun duty h => ?_, List.forall_mem_nil _⟩
  · rw [hnotes]
    exact List.forall_mem_nil _
  · cases List.eq_of_mem_replicate h
    trivial

/-- The notes after a worker has got a new duty, when the entries that its new
notes are about are as noted and no other entry has changed. -/
theorem assign (hf : c.Filed f base) (hnodup : ((c'.notes f).map (·.1)).Nodup)
    (new : List (Deed φ β)) {duty duty' : Duty φ β} (hd : c.duties[i]? = some duty)
    (hduties : c'.duties = c.duties.set i duty')
    (hdeeds : c'.account.deeds = c.account.deeds ++ new)
    (hold : ∀ note ∈ duty.note? f,
      note.1 ∈ (new.map (·.note f) ++ (duty'.note? f).toList).map (·.1))
    (hnew : ∀ note ∈ new.map (·.note f) ++ (duty'.note? f).toList,
      c'.account.world.stored.entry note.1 = note.2.getD (base note.1))
    (hentry : ∀ id, id ∉ (new.map (·.note f) ++ (duty'.note? f).toList).map (·.1) →
      c'.account.world.stored.entry id = c.account.world.stored.entry id)
    (hduty : duty'.Filed f base) (hdeed : ∀ deed ∈ new, deed.Filed base) : c'.Filed f base := by
  obtain ⟨rest, hperm, hperm'⟩ := perm_filterMap_set (Duty.note? f) hd duty'
  have hnotes : (c.notes f).Perm
      ((duty.note? f).toList ++ (c.account.deeds.map (·.note f) ++ rest)) :=
    (hperm.append_left _).trans (List.perm_append_comm_assoc ..)
  have hnotes' : (c'.notes f).Perm ((new.map (·.note f) ++ (duty'.note? f).toList) ++
      (c.account.deeds.map (·.note f) ++ rest)) := by
    rw [notes, hduties, hdeeds, List.map_append, List.append_assoc, List.append_assoc]
    refine (List.perm_append_comm_assoc ..).trans (List.Perm.append_left _ ?_)
    exact (hperm'.append_left _).trans (List.perm_append_comm_assoc ..)
  have hapart := (hnotes'.map (·.1)).nodup_iff.mp hnodup
  rw [List.map_append, List.nodup_append] at hapart
  refine ⟨fun note h => ?_, fun id h => ?_, fun duty₁ h => ?_, fun deed h => ?_⟩
  · rcases List.mem_append.mp (hnotes'.mem_iff.mp h) with hnote | hnote
    · exact hnew note hnote
    · -- the notes on other dependencies are about other entries
      have hother : note.1 ∉ (new.map (·.note f) ++ (duty'.note? f).toList).map (·.1) :=
        fun hmem => hapart.2.2 _ hmem _ (List.mem_map_of_mem hnote) rfl
      rw [hentry _ hother]
      exact hf.noted note (hnotes.mem_iff.mpr (List.mem_append_right _ hnote))
  · rw [(hnotes'.map (·.1)).mem_iff, List.map_append, List.mem_append, not_or] at h
    rw [hentry id h.1]
    refine hf.others id fun hmem => ?_
    rw [(hnotes.map (·.1)).mem_iff, List.map_append, List.mem_append] at hmem
    rcases hmem with hmem | hmem
    · obtain ⟨note, hnote, rfl⟩ := List.mem_map.mp hmem
      exact h.1 (hold note (Option.mem_toList.mp hnote))
    · exact h.2 hmem
  · rw [hduties] at h
    rcases List.mem_or_eq_of_mem_set h with hmem | rfl
    · exact hf.duties duty₁ hmem
    · exact hduty
  · rw [hdeeds, List.mem_append] at h
    exact h.elim (hf.deeds deed) (hdeed deed)

/-- The notes after a worker has got a new duty, when nothing is noted that
was not noted before and no entry has changed. -/
theorem assign_kept (hf : c.Filed f base) (hnodup : ((c'.notes f).map (·.1)).Nodup)
    (new : List (Deed φ β)) {duty duty' : Duty φ β} (hd : c.duties[i]? = some duty)
    (hduties : c'.duties = c.duties.set i duty')
    (hdeeds : c'.account.deeds = c.account.deeds ++ new)
    (hnotes : new.map (·.note f) ++ (duty'.note? f).toList = (duty.note? f).toList)
    (hentry : c'.account.world.stored.entry = c.account.world.stored.entry)
    (hduty : duty'.Filed f base) (hdeed : ∀ deed ∈ new, deed.Filed base) : c'.Filed f base := by
  refine hf.assign hnodup new hd hduties hdeeds (fun note h => ?_) (fun note h => ?_)
    (fun id _ => congrFun hentry id) hduty hdeed
  · rw [hnotes]
    exact List.mem_map_of_mem (Option.mem_toList.mpr h)
  · rw [hnotes, Option.mem_toList] at h
    rw [congrFun hentry]
    refine hf.noted note (List.mem_append_right _ (List.mem_filterMap.mpr ⟨duty, ?_, h⟩))
    exact List.mem_of_getElem? hd

theorem assign_same (hf : c.Filed f base) (hnodup : ((c'.notes f).map (·.1)).Nodup)
    {duty duty' : Duty φ β} (hd : c.duties[i]? = some duty)
    (hduties : c'.duties = c.duties.set i duty') (hdeeds : c'.account.deeds = c.account.deeds)
    (hnote : duty'.note? f = duty.note? f)
    (hentry : c'.account.world.stored.entry = c.account.world.stored.entry)
    (hduty : duty'.Filed f base) : c'.Filed f base :=
  hf.assign_kept hnodup [] hd hduties (by simpa using hdeeds) (by rw [hnote]; rfl) hentry hduty
    (List.forall_mem_nil _)

/-- A turn of a job is noted. -/
theorem labour (hf : c.Filed f base) (hp : p.Files g f) (hb : c.Borne g)
    (hw : f.holds c.account.world) {claim : Claim Dependency} {post post' : Post φ β}
    {account : Account φ β} (hd : c.duties[i]? = some (.working claim post))
    (hl : Labour p claim c.account post account post')
    (hnodup : ((({ c.assign i (.working claim post') with account } : Crew φ β).notes f).map
      (·.1)).Nodup) :
    ({ c.assign i (.working claim post') with account } : Crew φ β).Filed f base := by
  have hmem := List.mem_of_getElem? hd
  have hpost := hf.duties _ hmem
  cases hl with
  | pass | announce => exact hf.assign_same hnodup hd rfl rfl rfl rfl trivial
  | fail e h =>
    rename_i occasion
    refine hf.assign_same hnodup hd rfl rfl ?_ rfl trivial
    cases occasion with
    | before => exact absurd rfl h
    | after | error _ => rfl
  | hook occasion update rest =>
    obtain ⟨hstep, hrest⟩ := hpost _ hw
    exact hf.assign_same hnodup hd rfl rfl (by cases occasion <;> rfl) hstep.2 hrest
  | heard occasion =>
    exact hf.assign_same hnodup hd rfl rfl (by cases occasion <;> rfl) rfl
      (by cases occasion <;> trivial)
  | stop e =>
    refine hf.assign_kept hnodup [⟨claim, .stopped e⟩] hd rfl rfl rfl rfl trivial fun deed h => ?_
    rw [List.mem_singleton.mp h]
    trivial
  | begin =>
    have hactions := hp.actions claim (hb.duties _ hmem claim rfl)
    refine hf.assign_same hnodup hd rfl rfl ?_ rfl ⟨hactions, nofun⟩
    exact congrArg (fun m => some (claim.id, m)) (hp.unmarked claim)
  | act seen update rest =>
    obtain ⟨hmarks, hfirst⟩ := hpost
    obtain ⟨hstep, hrest⟩ := hmarks _ hw
    have hnoted := hf.noted (claim.id, f.mark claim seen)
      (List.mem_append_right _ (List.mem_filterMap.mpr ⟨_, hmem, rfl⟩))
    have hduty : (Duty.working claim (.acting (seen ++ [c.account.world])
        (rest c.account.world))).Filed f base := by
      refine ⟨by simpa using hrest, fun w h => ?_⟩
      cases seen with
      | nil =>
        cases h
        rw [hp.unmarked] at hnoted
        exact hnoted
      | cons w' seen => exact hfirst w h
    simp only [List.append_nil] at hstep
    rcases hstep with ⟨hkeeps, hmark⟩ | ⟨m, _, hmark, hsets⟩
    · refine hf.assign_same hnodup hd rfl rfl ?_ hkeeps.2 hduty
      exact congrArg (fun m => some (claim.id, m)) hmark
    · refine hf.assign hnodup [] hd rfl (List.append_nil _).symm (fun note h => ?_)
        (fun note h => ?_) (fun id h => ?_) hduty (List.forall_mem_nil _)
      · cases h
        exact List.mem_singleton_self _
      · cases List.mem_singleton.mp h
        rw [hmark]
        exact (congrFun hsets.2 _).trans (Function.update_self ..)
      · exact (congrFun hsets.2 id).trans
          (Function.update_of_ne (fun heq => h (by rw [heq]; exact List.mem_singleton_self _)) ..)
  | acted seen answer =>
    refine hf.assign_kept hnodup [⟨claim, .acted seen answer.1⟩] hd rfl rfl ?_ rfl
      (hp.hooks ..) fun deed h => ?_
    · obtain ⟨result, journal⟩ := answer
      cases result <;> rfl
    · rw [List.mem_singleton.mp h]
      exact hpost.2
  | enter =>
    refine hf.assign_same hnodup hd rfl rfl ?_ rfl ?_ <;> cases p.silent <;> trivial

/-- Every turn is noted. -/
theorem turn (hf : c.Filed f base) (hp : p.Files g f) (hg : g.Hierarchy) (hl : g.Laden)
    (ho : c.Orderly p g f.conduct True) (ho' : c'.Orderly p g f.conduct True)
    (h : Turn p i c c') : c'.Filed f base := by
  have hnodup : ((c'.notes f).map (·.1)).Nodup :=
    (ho'.recorded.notes_perm f).nodup_iff.mp (ho'.sound.reachable.sound hg hl).balanced.once
  -- nothing is noted on a dependency that is only now handed out
  have hfresh : ∀ {claim : Claim Dependency}, (c.session.handout.inspect i).1 = .claim claim →
      c.account.world.stored.entry claim.id = base claim.id := by
    intro claim hoffer
    refine hf.others claim.id fun hmem => ?_
    rw [← (ho.recorded.notes_perm f).mem_iff, Traversal.mem_handedOut] at hmem
    exact ho.sound.not_handedOut_of_offered hg hl hoffer hmem
  cases h with
  | work hd hl' => exact hf.labour hp ho.borne ho.conducted.world hd hl' hnodup
  | @pass claim hd hoffer hacts =>
    have hnone : (Duty.working claim (p.passPost claim.payload)).note? f = none := by
      unfold Plan.passPost
      split <;> rfl
    refine hf.assign hnodup [⟨claim, .passed⟩] hd rfl rfl nofun (fun note h => ?_) (fun _ _ => rfl)
      ?_ fun deed h => ?_
    · rw [hnone] at h
      cases List.mem_singleton.mp h
      exact hfresh hoffer
    · unfold Plan.passPost
      split <;> trivial
    · rw [List.mem_singleton.mp h]
      trivial
  | @take claim hd hoffer hacts =>
    refine hf.assign hnodup [] hd rfl (by simp) nofun (fun note h => ?_) (fun _ _ => rfl)
      (hp.hooks ..) (List.forall_mem_nil _)
    cases List.mem_singleton.mp h
    exact hfresh hoffer
  | @leave claim outcome hd =>
    refine hf.assign_same hnodup hd rfl rfl ?_ rfl ?_ <;> cases outcome <;> trivial
  | register hd | park hd | exhaust hd | wake hd | abort hd | warn hd | release hd | notify hd =>
    exact hf.assign_same hnodup hd rfl rfl rfl rfl trivial

end Filed

/-- A run that leaves the store alone but for what the marks say is filed at
any time. -/
theorem filed_follow {p : Plan φ β} {g : Graph Dependency} {f : Filing φ β} (hg : g.Hierarchy)
    (hl : g.Laden) (hp : p.Files g f) (workers : Nat) {w : World φ β} (hw : f.holds w)
    (schedule : List Nat) :
    ((Crew.start p.verb.direction g workers w).follow p schedule).Orderly p g f.conduct True ∧
      ((Crew.start p.verb.direction g workers w).follow p schedule).Filed f w.stored.entry := by
  refine follow_induction
    (P := fun c => c.Orderly p g f.conduct True ∧ c.Filed f w.stored.entry)
    (fun i c c' ⟨ho, hf⟩ h => ?_) schedule
    ⟨⟨.start .., .start .., .start .., .start _ _ _ hw⟩, .start _ _ _ rfl⟩
  have ho' := ho.turn hg hl hp.conducts (Or.inl trivial) h
  exact ⟨ho', hf.turn hp hg hl ho ho' h⟩

end Crew

/-! ## Whole runs -/

section Whole

variable {p : Plan φ β} {g : Graph Dependency} {f : Filing φ β}

/-- A whole run is orderly, and filed. -/
theorem filed_crew (hg : g.Hierarchy) (hl : g.Laden) (hp : p.Files g f) (schedule : List Nat)
    (workers : Nat) {w : World φ β} (hw : f.holds w) :
    (crew p schedule workers g w).Orderly p g f.conduct True ∧
      (crew p schedule workers g w).Filed f w.stored.entry :=
  Crew.filed_follow hg hl hp workers hw _

omit [FileSystem φ] in
/-- At the end of a whole run there are notes on deeds alone. -/
theorem notes_crew (hg : g.Hierarchy) (hl : g.Laden) (p : Plan φ β) (f : Filing φ β)
    (schedule : List Nat) (workers : Nat) (w : World φ β) :
    (crew p schedule workers g w).notes f =
      (crew p schedule workers g w).account.deeds.map (·.note f) := by
  rw [Crew.notes, Crew.Recorded.eq_nil_of_ended (fun _ => rfl)
    fun _ => ended_of_mem_crew p schedule workers hg hl w, List.append_nil]

/-- What a whole run does to an entry is what the action on its dependency
does to it. -/
theorem entry_crew (hg : g.Hierarchy) (hl : g.Laden) (hp : p.Files g f) (schedule : List Nat)
    (workers : Nat) {w : World φ β} (hw : f.holds w) (id : String) :
    (crew p schedule workers g w).account.world.stored.entry id =
      (((crew p schedule workers g w).account.deeds.find? (·.claim.id = id)).bind
        fun deed => (deed.note f).2).getD (w.stored.entry id) := by
  have hfiled := (filed_crew hg hl hp schedule workers hw).2
  have hnotes := notes_crew hg hl p f schedule workers w
  cases hfind : (crew p schedule workers g w).account.deeds.find? (·.claim.id = id) with
  | none =>
    refine hfiled.others id fun hmem => ?_
    rw [hnotes, List.map_map] at hmem
    obtain ⟨deed, hdeed, hid⟩ := List.mem_map.mp hmem
    exact List.find?_eq_none.mp hfind deed hdeed (decide_eq_true hid)
  | some deed =>
    have hid : deed.claim.id = id := by simpa using List.find?_some hfind
    have hnoted := hfiled.noted (deed.note f)
      (hnotes ▸ List.mem_map_of_mem (List.mem_of_find?_eq_some hfind))
    rw [← hid]
    exact hnoted

end Whole

end Cascade.Run
