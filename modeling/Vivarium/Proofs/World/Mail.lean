import Vivarium.Proofs.World.Edges
import Vivarium.Proofs.World.Inboxes
/-!
# Where messages go

A message that leaves a cell arrives in the inbox of the frame that faces back, and a broadcast arrives
once in every such inbox, however narrow the grid is. On a torus of one or two tiles a side, two
directions lead to one tile or back to the sender, but never to one frame. Nothing but inboxes changes.
-/
namespace Vivarium

variable {α : Type} [Scalar α]

theorem Direction.mem_all (d : Direction) : d ∈ all := by
  revert d
  decide

/-- Nobody lives outside the grid. -/
theorem World.lt_size_of_live {w : World α} {q : Nat} (h : (w.tile q).live = true) : q < w.size := by
  by_contra hq
  have hq' : ¬q < w.tiles.size := hq
  rw [tile, dif_neg hq'] at h
  cases h

/-- A message has been put behind what waits in the addressed inboxes. The inboxes that are not addressed
are as they were, and so is everything else. -/
structure Surroundings.Posts (s t : Surroundings α) (m : Message α) (addressed : Nat → Direction → Prop) :
    Prop where
  arrived : ∀ q d, addressed q d → t.world.inbox q d = s.world.inbox q d ++ [m]
  silent : ∀ q d, ¬addressed q d → t.world.inbox q d = s.world.inbox q d
  others : s.world.SameButInboxes t.world
  membrane : t.membrane = s.membrane

namespace Surroundings

namespace Posts

variable {s t u : Surroundings α} {m : Message α} {A B : Nat → Direction → Prop}

theorem none (s : Surroundings α) (way : Direction) (m : Message α) :
    s.Posts { s with msgDir := way } m fun _ _ => False :=
  ⟨fun _ _ => False.elim, fun _ _ _ => rfl, .refl _, rfl⟩

/-- Two rounds of post for different inboxes. -/
theorem trans (h : s.Posts t m A) (h' : t.Posts u m B) (hdisjoint : ∀ q d, A q d → ¬B q d) :
    s.Posts u m fun q d => A q d ∨ B q d where
  arrived q d hqd := by
    rcases hqd with hA | hB
    · rw [h'.silent q d (hdisjoint q d hA), h.arrived q d hA]
    · rw [h'.arrived q d hB, h.silent q d fun hA => hdisjoint q d hA hB]
  silent q d hqd := by
    rw [h'.silent q d fun hB => hqd (.inr hB), h.silent q d fun hA => hqd (.inl hA)]
  others := h.others.trans h'.others
  membrane := h'.membrane.trans h.membrane

theorem congr (h : s.Posts t m A) (hAB : ∀ q d, A q d ↔ B q d) : s.Posts t m B := by
  have he : A = B := funext fun q => funext fun d => propext (hAB q d)
  rwa [← he]

/-- A message for each of several directions, none of which leads to the inbox of another. -/
theorem foldl (send : Surroundings α → Direction → Surroundings α)
    (A : Direction → Nat → Direction → Prop)
    (hsend : ∀ {B t}, s.Posts t m B → ∀ d, t.Posts (send t d) m (A d))
    (hdisjoint : ∀ {d e q g}, A d q g → A e q g → d = e) {ds : List Direction} (hds : ds.Nodup) :
    s.Posts (ds.foldl send s) m fun q g => ∃ d ∈ ds, A d q g := by
  induction ds using List.reverseRecOn with
  | nil => exact (none s s.msgDir m).congr fun q d => by simp
  | append_singleton ds d ih =>
    rw [List.nodup_append] at hds
    have hposted := ih hds.1
    rw [List.foldl_append]
    refine (hposted.trans (hsend hposted d) ?_).congr fun q g => ?_
    · rintro q g ⟨e, he, hA⟩ hA'
      exact hds.2.2 e he d (List.mem_singleton_self d) (hdisjoint hA hA')
    · simp [or_and_right, exists_or]

end Posts

variable {s t : Surroundings α} {m : Message α} {p : Nat} {facing : Direction} {affinity : Tag}
  {payload : Memory α}

theorem posts_deliver (hp : p < s.world.size) (d way : Direction) (m : Message α) :
    s.Posts { s with world := s.world.deliver p d m, msgDir := way } m fun q g => q = p ∧ g = d where
  arrived q g hqg := by
    obtain ⟨rfl, rfl⟩ := hqg
    exact World.inbox_modifyInbox_same hp g _
  silent q g hqg := World.inbox_modifyInbox_other hqg _
  others := s.world.sameButInboxes_modifyInbox p d _
  membrane := rfl

/-- An internal message goes to a frame of the same cell. -/
theorem posts_sendInternal (hp : p < s.world.size) (facing : Direction) (affinity : Tag)
    (payload : Memory α) (d : Direction) :
    s.Posts (s.sendInternal p facing affinity payload d) ⟨.internal, affinity, payload, p, facing⟩
      fun q g => q = p ∧ g = d :=
  posts_deliver hp d d _

/-- A neighbour that does not live hears nothing. -/
theorem posts_sendExternal (hw : 0 < s.world.grid.size) (hsize : s.world.grid.size = s.world.size)
    (p : Nat) (facing : Direction) (affinity : Tag) (payload : Memory α) (d : Direction) :
    s.Posts (s.sendExternal p facing affinity payload d) ⟨.external, affinity, payload, p, facing⟩
      fun q g => (s.world.tile q).live = true ∧ q = s.world.neighbor p d ∧ g = d.opposite := by
  have hneighbor : s.world.neighbor p d < s.world.size := hsize ▸ s.world.grid.neighbor_lt p d hw
  rw [sendExternal, World.sendExternal]
  by_cases hlive : (s.world.tile (s.world.neighbor p d)).live = true
  · rw [if_pos hlive]
    refine (posts_deliver hneighbor d.opposite d _).congr fun q g => ⟨?_, And.right⟩
    rintro ⟨rfl, rfl⟩
    exact ⟨hlive, rfl, rfl⟩
  · rw [if_neg hlive]
    refine (Posts.none s d _).congr fun q g => ⟨False.elim, ?_⟩
    rintro ⟨hq, rfl, -⟩
    exact hlive hq

/-- A broadcast to the outside reaches the frames of live cells that look at the sender. -/
theorem posts_broadcastExternal (hw : s.world.grid.Walkable) (hsize : s.world.grid.size = s.world.size)
    (hp : p < s.world.size) (facing : Direction) (affinity : Tag) (payload : Memory α) :
    s.Posts (Direction.all.foldl (fun s d => s.sendExternal p facing affinity payload d) s)
      ⟨.external, affinity, payload, p, facing⟩
      fun t g => (s.world.tile t).live = true ∧ s.world.neighbor t g = p := by
  have hposted := Posts.foldl (s := s) (m := ⟨.external, affinity, payload, p, facing⟩)
    (fun s d => s.sendExternal p facing affinity payload d)
    (fun d q g => (s.world.tile q).live = true ∧ q = s.world.neighbor p d ∧ g = d.opposite)
    ?posted ?disjoint (show Direction.all.Nodup by decide)
  case posted =>
    -- The lives and the neighbors are those of the beginning, whatever has been posted so far.
    intro B t ht d
    refine (posts_sendExternal ?_ ?_ p facing affinity payload d).congr fun q g => ?_
    · rw [ht.others.rest]
      change 0 < s.world.grid.size
      omega
    · rw [ht.others.size, ht.others.rest]
      exact hsize
    · rw [ht.others.live, ht.others.neighbor]
  case disjoint =>
    rintro d e q g ⟨-, -, hd⟩ ⟨-, -, he⟩
    rw [← d.opposite_opposite, ← hd, he, e.opposite_opposite]
  refine hposted.congr fun t g => ⟨?_, ?_⟩
  · rintro ⟨e, -, hlive, rfl, rfl⟩
    exact ⟨hlive, Grid.neighbor_opposite hw (hsize ▸ hp) e⟩
  · rintro ⟨hlive, rfl⟩
    have ht : t < s.world.grid.size := hsize ▸ World.lt_size_of_live hlive
    exact ⟨g.opposite, g.opposite.mem_all, hlive, (Grid.neighbor_opposite hw ht g).symm,
      g.opposite_opposite.symm⟩

/-- A broadcast inside the cell reaches the siblings. -/
theorem posts_broadcastInternal (hp : p < s.world.size) (facing : Direction) (affinity : Tag)
    (payload : Memory α) :
    s.Posts ((Direction.all.filter (· != facing)).foldl
        (fun s d => s.sendInternal p facing affinity payload d) s)
      ⟨.internal, affinity, payload, p, facing⟩ fun t g => t = p ∧ g ≠ facing := by
  have hposted := Posts.foldl (s := s) (m := ⟨.internal, affinity, payload, p, facing⟩)
    (fun s d => s.sendInternal p facing affinity payload d) (fun d q g => q = p ∧ g = d)
    ?posted ?disjoint (show (Direction.all.filter (· != facing)).Nodup by revert facing; decide)
  case posted =>
    intro B t ht d
    exact posts_sendInternal (ht.others.size ▸ hp) facing affinity payload d
  case disjoint =>
    rintro d e q g ⟨-, hd⟩ ⟨-, he⟩
    exact hd.symm.trans he
  refine hposted.congr fun t g => ⟨?_, ?_⟩
  · rintro ⟨e, he, rfl, rfl⟩
    exact ⟨rfl, by simpa using (List.mem_filter.1 he).2⟩
  · rintro ⟨rfl, hg⟩
    exact ⟨g, List.mem_filter.2 ⟨g.mem_all, by simpa using hg⟩, rfl, rfl⟩

end Surroundings

namespace World

/-- A message goes to every frame that it is meant for, once, and to no other. A broadcast to the outside
is meant for the frames of live cells that look at the sender, a single message for the one that faces back
at it, if the cell is alive; inside the cell they are meant for the siblings and for the frame in the
direction. Every message carries the tag of the instruction, the output memory of the thread and the place
that it comes from. Apart from these inboxes the world stays as it is, and so do the memories of the thread
and the membrane. -/
theorem messages_reach_facing_frames {w : World α} (hw : w.grid.Walkable)
    (hsize : w.grid.size = w.size) {p : Nat} (hp : p < w.size) (facing : Direction)
    (site : Site α FrameOp) (memory : Scratch α) (membrane : Membrane α) (msgDir : Direction) :
    let s : Surroundings α := ⟨w, membrane, msgDir⟩
    let d := facing.turn (memory.locals.read site.instruction.args.first)
    let run (op : PlainAct) := (environment p facing).execute (.plain op) site memory s
    let message (kind : MessageKind) : Message α :=
      ⟨kind, site.instruction.affinity, memory.outputs, p, facing⟩
    s.Posts (run .bcstMsgExternal).2 (message .external)
      (fun t g => (w.tile t).live = true ∧ w.neighbor t g = p) ∧
    s.Posts (run .sendMsgExternal).2 (message .external)
      (fun t g => (w.tile t).live = true ∧ t = w.neighbor p d ∧ g = d.opposite) ∧
    s.Posts (run .bcstMsgInternal).2 (message .internal) (fun t g => t = p ∧ g ≠ facing) ∧
    s.Posts (run .sendMsgInternal).2 (message .internal) (fun t g => t = p ∧ g = d) ∧
    ∀ op ∈ [PlainAct.bcstMsgExternal, .sendMsgExternal, .bcstMsgInternal, .sendMsgInternal],
      (run op).1 = memory := by
  intro s d run message
  refine ⟨?_, ?_, ?_, ?_, ?_⟩
  · exact s.posts_broadcastExternal hw hsize hp facing _ _
  · exact s.posts_sendExternal (show 0 < w.grid.size by omega) hsize p facing _ _ d
  · exact s.posts_broadcastInternal hp facing _ _
  · exact s.posts_sendInternal hp facing _ _ d
  · intro op hop
    simp only [List.mem_cons, List.not_mem_nil, or_false] at hop
    rcases hop with rfl | rfl | rfl | rfl <;> rfl

/-- An instruction that sends under tag five, in a thread that has stored nothing. -/
def dispatch (op : PlainAct) : Site Float FrameOp :=
  ⟨⟨.ext (.plain op), ⟨0, 0, 0⟩, .new 5⟩, .enter 0 .empty, .none⟩

/-- On two tiles side by side, every frame looks at its own tile or at the other one. The frame that looks
up from the left tile reaches two frames of the right tile, and of its own tile itself and the one that
looks down. -/
theorem messages_reach_facing_frames_outpost : ∃ w, Run doorstep w ∧ w.grid.Walkable ∧
    w.grid.size = w.size ∧ 0 < w.size ∧
    let sent := ((environment 0 .up).execute (.plain .bcstMsgExternal) (dispatch .bcstMsgExternal)
      ⟨.empty, .empty, .empty, .empty, .ofSeed 7⟩ ⟨w, .empty 0, .up⟩).2
    let m : Message Float := ⟨.external, .new 5, .empty, 0, 0⟩
    sent.world.inbox 1 .left = w.inbox 1 .left ++ [m] ∧
    sent.world.inbox 1 .right = w.inbox 1 .right ++ [m] ∧
    sent.world.inbox 1 .up = w.inbox 1 .up ∧ sent.world.inbox 1 .down = w.inbox 1 .down ∧
    sent.world.inbox 0 .up = w.inbox 0 .up ++ [m] ∧
    sent.world.inbox 0 .down = w.inbox 0 .down ++ [m] ∧
    sent.world.inbox 0 .left = w.inbox 0 .left := by
  have hrun : leadsTo doorstep outpost (fun _ w =>
      decide ((w.tile 0).live = true ∧ (w.tile 1).live = true ∧ w.grid = ⟨2, 1⟩ ∧ w.size = 2)) = true := by
    decide +kernel
  obtain ⟨w₀, ids, w, h₀, hw, ht⟩ := exists_history hrun
  obtain ⟨hfounder, hchild, hgrid, hsize⟩ := of_decide_eq_true ht
  have hwalk : w.grid.Walkable := by
    rw [hgrid]
    exact ⟨by decide, by decide, by decide, by decide⟩
  have hall : w.grid.size = w.size := by
    rw [hgrid, hsize]
    rfl
  have hpos : 0 < w.size := by omega
  obtain ⟨hbroadcast, -⟩ := messages_reach_facing_frames hwalk hall hpos .up (dispatch .bcstMsgExternal)
    ⟨.empty, .empty, .empty, .empty, .ofSeed 7⟩ (.empty 0) .up
  have hlook (q : Nat) (d : Direction) : w.neighbor q d = (⟨2, 1⟩ : Grid).neighbor q d := by
    rw [neighbor, hgrid]
  have hseen {q : Nat} {d : Direction} (h : (⟨2, 1⟩ : Grid).neighbor q d = 0) : w.neighbor q d = 0 :=
    (hlook q d).trans h
  have hunseen {q : Nat} {d : Direction} (h : (⟨2, 1⟩ : Grid).neighbor q d ≠ 0) : w.neighbor q d ≠ 0 :=
    fun he => h ((hlook q d).symm.trans he)
  refine ⟨w, .of_history h₀ hw, hwalk, hall, hpos, ?_, ?_, ?_, ?_, ?_, ?_, ?_⟩
  · exact hbroadcast.arrived 1 .left ⟨hchild, hseen (by decide)⟩
  · exact hbroadcast.arrived 1 .right ⟨hchild, hseen (by decide)⟩
  · exact hbroadcast.silent 1 .up fun h => hunseen (by decide) h.2
  · exact hbroadcast.silent 1 .down fun h => hunseen (by decide) h.2
  · exact hbroadcast.arrived 0 .up ⟨hfounder, hseen (by decide)⟩
  · exact hbroadcast.arrived 0 .down ⟨hfounder, hseen (by decide)⟩
  · exact hbroadcast.silent 0 .left fun h => hunseen (by decide) h.2

end World

end Vivarium
