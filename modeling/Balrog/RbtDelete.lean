import Balrog.RbtInsert

/-!
# Deletion from the red-black tree

Taking out a black node without a red child leaves a hole one black node short. The
fix-up loop stands at the node above the hole: its sibling subtree is one black node
higher than the tree in the hole, so the sibling is never null. A round either ends
the loop or moves the hole one level up; the two rotating rounds that do not end it
lead to one that does.

A node with two children is not taken out itself. It receives the key and value of
its successor, whose node has no left child and goes instead.
-/

namespace Balrog.RbtDelete

open RedBlack RbtNodes RbtShape RbtSearch List
open RbtInsert (rbt_search_spec)

section Fixup

variable {store : Store} {frame : Frame Entry} {rest : List (Frame Entry)}
  {tree near far : RedBlack.Tree Entry} {color : Color} {entry : Entry}

variable (fuel : Nat)

/-- One round of `__delete_fixup` above a hole, with what it reads resolved. -/
theorem delete_round (represents : Represents store (plug (frame :: rest) tree))
    (sibling : frame.sibling = join frame.side color near entry far) :
    deleteFixup (fuel + 1) store frame.entry.address frame.side =
      if color = .red then do
        let store ← rotate store frame.entry.address frame.side
        let store ← paint store frame.entry.address .red
        let store ← paint store entry.address .black
        deleteFixup fuel store frame.entry.address frame.side
      else if far.color = .red then do
        let store ← paint store (pointer far) .black
        let store ← paint store entry.address frame.color
        let store ← paint store frame.entry.address .black
        rotate store frame.entry.address frame.side
      else if near.color = .red then do
        let store ← paint store (pointer near) .black
        let store ← paint store entry.address .red
        let store ← rotate store entry.address frame.side.flip
        deleteFixup fuel store frame.entry.address frame.side
      else if frame.color = .red then do
        let store ← paint store frame.entry.address .black
        paint store entry.address .red
      else (do
        let store ← paint store entry.address .red
        let dir ← if above rest ≠ 0 then getDir store frame.entry.address else some frame.side
        deleteFixup fuel store (above rest) dir) := by
  rw [plug_cons, sibling] at represents
  have positive := (represents_focus represents).positive
  have frameNode := represents_load represents
  have siblingRepresents := represents_outer represents
  have siblingNode := represents_load siblingRepresents
  have siblingRed := represents_is_red siblingRepresents
  have nearRed := represents_is_red (represents_inner siblingRepresents)
  have farRed := represents_is_red (represents_outer siblingRepresents)
  simp only [pointer_join, color_join] at siblingRed frameNode
  rw [deleteFixup, if_neg (Nat.ne_of_gt positive), frameNode]
  simp only [Option.bind_eq_bind, Option.bind_some, image_child_flip, siblingRed, siblingNode,
    image_child, nearRed, farRed, image_color, image_parent, beq_iff_eq]

variable {height : Nat} (represents : Represents store (plug (frame :: rest) tree))
  (accepts : Accepts (frame :: rest) (height + 1)) (balanced : Balanced tree height)

include represents accepts balanced

/-- With all the nodes in sight black the sibling is painted red, and the hole moves
one level up. -/
theorem delete_moves_up (frameBlack : frame.color = .black)
    (sibling : frame.sibling = join frame.side .black near entry far)
    (nearBlack : near.color = .black) (farBlack : far.color = .black) :
    ∃ painted, Represents painted (plug rest
        (join frame.side .black tree frame.entry (join frame.side .red near entry far))) ∧
      Balanced (join frame.side .black tree frame.entry (join frame.side .red near entry far))
        (height + 1) ∧
      Accepts rest (height + 2) ∧
      deleteFixup (fuel + 1) store frame.entry.address frame.side =
        (if above rest ≠ 0 then getDir painted frame.entry.address else some frame.side).bind
          (deleteFixup fuel painted (above rest)) := by
  have level := balanced_level accepts balanced sibling nearBlack farBlack
  have upper := accepts.2.2
  rw [frameBlack, weight_black] at upper
  have round := delete_round fuel represents sibling
  rw [if_neg (by decide), if_neg (by rw [farBlack]; decide), if_neg (by rw [nearBlack]; decide),
    if_neg (by rw [frameBlack]; decide)] at round
  rw [plug_cons, sibling, frameBlack] at represents
  obtain ⟨painted, paints, represents⟩ := represents_paint (represents_outer represents) .red
  rw [plug_cons, join_flip] at represents
  refine ⟨painted, represents, level, upper, round.trans ?_⟩
  simp only [paints, Option.bind_eq_bind, Option.bind_some]
  split <;> rfl

variable (black : (plug (frame :: rest) tree).color = .black)

include black

/-- A red far child ends the loop with one rotation. -/
theorem delete_far_red (sibling : frame.sibling = join frame.side .black near entry far)
    (farRed : far.color = .red) :
    Settles (deleteFixup (fuel + 1) store frame.entry.address frame.side)
      (plug (frame :: rest) tree).toList := by
  obtain ⟨a, farEntry, b, farIs⟩ := red_cases .left far farRed
  obtain ⟨whole, wholeBalanced⟩ := balanced_far_red accepts balanced sibling farRed
  rw [delete_round fuel represents sibling, if_neg (by decide), if_pos farRed]
  rw [plug_cons, sibling] at represents black ⊢
  subst farIs
  obtain ⟨first, firstPaint, represents⟩ :=
    represents_paint (represents_outer (represents_outer represents)) .black
  rw [plug_cons, join_flip] at represents
  obtain ⟨second, secondPaint, represents⟩ := represents_paint represents frame.color
  rw [plug_cons, join_flip] at represents
  obtain ⟨third, thirdPaint, represents⟩ := represents_paint represents .black
  obtain ⟨turned, rotated, represents⟩ := represents_rotate represents
  refine ⟨turned, _, ?_, represents, ?_, color_plug_black rest black (.inr ?_), whole,
    by simpa using wholeBalanced⟩
  · simp only [pointer_join, firstPaint, secondPaint, thirdPaint, rotated, Option.bind_eq_bind,
      Option.bind_some]
  · refine to_list_plug_congr rest ?_
    generalize frame.side = side
    cases side <;> simp [join, RedBlack.Tree.toList]
  · rw [color_join, color_join]

/-- A red near child, with a black far one, is turned into a red far child. -/
theorem delete_near_red (sibling : frame.sibling = join frame.side .black near entry far)
    (farBlack : far.color = .black) (nearRed : near.color = .red) :
    Settles (deleteFixup (fuel + 2) store frame.entry.address frame.side)
      (plug (frame :: rest) tree).toList := by
  obtain ⟨a, nearEntry, b, rfl⟩ := red_cases frame.side near nearRed
  have turnedAccepts := accepts_near_red accepts sibling farBlack
  have farNotRed : ¬ far.color = .red := by
    rw [farBlack]
    decide
  rw [delete_round (fuel + 1) represents sibling, if_neg (by decide), if_neg farNotRed,
    if_pos nearRed]
  rw [plug_cons, sibling] at represents black ⊢
  obtain ⟨first, firstPaint, represents⟩ :=
    represents_paint (represents_inner (represents_outer represents)) .black
  rw [plug_cons] at represents
  obtain ⟨second, secondPaint, represents⟩ := represents_paint represents .red
  rw [join_straight] at represents
  obtain ⟨turned, rotated, represents⟩ := represents_rotate represents
  rw [plug_cons, join_flip, join_flip, join_flip] at represents
  have turnedRepresents : Represents turned (plug ({ frame with
      sibling := join frame.side .black a nearEntry (join frame.side .red b entry far) } :: rest)
      tree) := represents
  have settled := delete_far_red fuel turnedRepresents turnedAccepts balanced
    (color_plug_black rest black (.inr (by simp))) rfl (color_join _ _ _ _ _)
  have sameEntries : (plug rest (join frame.side frame.color tree frame.entry
      (join frame.side .black a nearEntry (join frame.side .red b entry far)))).toList =
      (plug rest (join frame.side frame.color tree frame.entry
        (join frame.side .black (join frame.side .red a nearEntry b) entry far))).toList := by
    refine to_list_plug_congr rest (to_list_join_congr rfl ?_)
    exact to_list_rotate frame.side .black .red .red .black a b far nearEntry entry
  rw [plug_cons, sameEntries] at settled
  simpa only [pointer_join, firstPaint, secondPaint, rotated, Option.bind_eq_bind,
    Option.bind_some] using settled

/-- Below a red node with a black sibling the loop ends within two rounds. -/
theorem delete_frame_red (red : frame.color = .red) :
    Settles (deleteFixup (fuel + 2) store frame.entry.address frame.side)
      (plug (frame :: rest) tree).toList := by
  obtain ⟨color, near, entry, far, sibling⟩ := short_sibling accepts
  have siblingBlack := (accepts.2.1 red).1
  rw [sibling, color_join] at siblingBlack
  subst siblingBlack
  rcases color_cases far.color with farBlack | farRed
  · rcases color_cases near.color with nearBlack | nearRed
    · have level := balanced_level accepts balanced sibling nearBlack farBlack
      have upper := accepts.2.2
      rw [red, weight_red, Nat.add_zero] at upper
      obtain ⟨whole, wholeBalanced⟩ := balanced_plug rest _ _ upper level
        (fun _ => color_join _ _ _ _ _)
      rw [delete_round (fuel + 1) represents sibling, if_neg (by decide),
        if_neg (by rw [farBlack]; decide), if_neg (by rw [nearBlack]; decide), if_pos red]
      rw [plug_cons, sibling] at represents black ⊢
      obtain ⟨first, firstPaint, represents⟩ := represents_paint represents .black
      obtain ⟨second, secondPaint, represents⟩ :=
        represents_paint (represents_outer represents) .red
      rw [plug_cons, join_flip] at represents
      refine ⟨second, _, ?_, represents, ?_, color_plug_black rest black
        (.inl (color_join _ _ _ _ _)), whole, wholeBalanced⟩
      · simp only [firstPaint, secondPaint, Option.bind_eq_bind, Option.bind_some]
      · exact to_list_plug_congr rest (to_list_join_congr rfl
          (to_list_join_congr rfl rfl))
    · exact delete_near_red fuel represents accepts balanced black sibling farBlack nearRed
  · exact delete_far_red (fuel + 1) represents accepts balanced black sibling farRed

/-- A red sibling is rotated up, after which the hole is below a red node. -/
theorem delete_sibling_red (sibling : frame.sibling = join frame.side .red near entry far) :
    Settles (deleteFixup (fuel + 3) store frame.entry.address frame.side)
      (plug (frame :: rest) tree).toList := by
  obtain ⟨frameBlack, turnedAccepts⟩ := accepts_sibling_red accepts sibling
  rw [delete_round (fuel + 2) represents sibling, if_pos rfl]
  rw [plug_cons, sibling] at represents black ⊢
  obtain ⟨turned, rotated, represents⟩ := represents_rotate represents
  obtain ⟨first, firstPaint, represents⟩ := represents_paint (represents_inner represents) .red
  rw [plug_cons] at represents
  obtain ⟨second, secondPaint, represents⟩ := represents_paint represents .black
  have settled := delete_frame_red fuel (represents_inner (represents_inner represents))
    turnedAccepts balanced (color_plug_black rest black (.inl (by simp))) rfl
  have sameEntries := to_list_plug_congr rest
    (to_list_rotate frame.side frame.color .red .red .black tree near far frame.entry entry)
  simp only [plug_cons] at settled
  rw [← sameEntries] at settled
  simpa only [rotated, firstPaint, secondPaint, Option.bind_eq_bind, Option.bind_some]
    using settled

/-- Above a hole that is one black node short, the loop ends within three rounds
unless all the nodes in sight are black. -/
theorem delete_ends :
    Settles (deleteFixup (fuel + 3) store frame.entry.address frame.side)
      (plug (frame :: rest) tree).toList ∨
    ∃ near entry far, frame.color = .black ∧
      frame.sibling = join frame.side .black near entry far ∧ near.color = .black ∧
      far.color = .black := by
  obtain ⟨color, near, entry, far, sibling⟩ := short_sibling accepts
  rcases color_cases frame.color with frameBlack | frameRed
  · rcases color_cases color with rfl | rfl
    · rcases color_cases far.color with farBlack | farRed
      · rcases color_cases near.color with nearBlack | nearRed
        · exact .inr ⟨near, entry, far, frameBlack, sibling, nearBlack, farBlack⟩
        · exact .inl (delete_near_red (fuel + 1) represents accepts balanced black sibling
            farBlack nearRed)
      · exact .inl (delete_far_red (fuel + 2) represents accepts balanced black sibling farRed)
    · exact .inl (delete_sibling_red fuel represents accepts balanced black sibling)
  · exact .inl (delete_frame_red (fuel + 1) represents accepts balanced black frameRed)

/-- `__delete_fixup` above a hole that is one black node short ends in a red-black
tree with the same entries.

Induction is on the frames above: a round that does not end the loop moves one frame
up, and a rotating round is followed by at most two more. -/
theorem delete_fixup_spec (enough : rest.length + 3 ≤ fuel) :
    Settles (deleteFixup fuel store frame.entry.address frame.side)
      (plug (frame :: rest) tree).toList := by
  induction rest generalizing fuel store frame tree height with
  | nil =>
    obtain ⟨more, rfl⟩ : ∃ more, fuel = more + 3 := ⟨fuel - 3, by simp at enough; omega⟩
    rcases delete_ends more represents accepts balanced black with
      ends | ⟨near, entry, far, frameBlack, sibling, nearBlack, farBlack⟩
    · exact ends
    obtain ⟨painted, raised, level, _, round⟩ := delete_moves_up (more + 2) represents accepts
      balanced frameBlack sibling nearBlack farBlack
    refine ⟨painted, _, ?_, raised, ?_, color_join _ _ _ _ _, height + 1, level⟩
    · rw [round]
      rfl
    · rw [plug_cons, plug_nil, plug_nil, sibling]
      exact to_list_join_congr rfl (to_list_join_congr rfl rfl)
  | cons upper others ih =>
    obtain ⟨more, rfl⟩ : ∃ more, fuel = more + 3 := ⟨fuel - 3, by omega⟩
    rcases delete_ends more represents accepts balanced black with
      ends | ⟨near, entry, far, frameBlack, sibling, nearBlack, farBlack⟩
    · exact ends
    obtain ⟨painted, raised, level, upperAccepts, round⟩ := delete_moves_up (more + 2) represents
      accepts balanced frameBlack sibling nearBlack farBlack
    have sameEntries : (plug (upper :: others) (join frame.side .black tree frame.entry
        (join frame.side .red near entry far))).toList =
        (plug (frame :: upper :: others) tree).toList := by
      rw [plug_cons frame, sibling]
      exact to_list_plug_congr _ (to_list_join_congr rfl (to_list_join_congr rfl rfl))
    have positive := (represents_focus (plug_cons upper others _ ▸ raised)).positive
    have settled := ih (more + 2) raised upperAccepts level
      (color_plug_black _ black (.inl (color_join _ _ _ _ _)))
      (by simp only [length_cons] at enough; omega)
    rw [round, above_cons, if_pos (Nat.ne_of_gt positive), represents_get_dir raised,
      Option.bind_some, ← sameEntries]
    exact settled

end Fixup

variable {address probe : Nat} {color rightColor : Color}
  {promoted left tree' inner outer right : RedBlack.Tree Entry}

section Removal

variable {store : Store} {context : List (Frame Entry)} {side : Side} {entry : Entry}

/-- Unlinking a node redirects the pointer to it and leaves everything below alone. -/
theorem unlink_spec
    (represents : Represents store (plug context (join side color .leaf entry promoted))) :
    ∃ linked, unlink store (above context) entry.address (pointer promoted) =
        some (linked, headSide context .left) ∧
      Holds linked.nodes context (pointer promoted) ∧
      (∀ address ∉ contextPlaces context, linked.nodes address = store.nodes address) ∧
      linked.root = pointer (plug context promoted) := by
  obtain ⟨_, _, holds, _, _, flat⟩ := represents_focus represents
  cases context with
  | nil => exact ⟨_, rfl, trivial, fun _ _ => rfl, rfl⟩
  | cons frame rest =>
    have dirIs := represents_get_dir represents
    obtain ⟨cell, sibling, outer⟩ := holds
    have positive := (represents_focus (plug_cons frame rest _ ▸ represents)).positive
    have apart := (nodup_append.mp flat).1
    simp only [contextPlaces, cons_append, nodup_cons, mem_append, not_or]
      at apart
    have written := update_eq store (fun node => node.setChild frame.side (pointer promoted))
      positive cell
    rw [image_set_child] at written
    refine ⟨{ store with
        nodes := put store.nodes frame.entry.address (some (image frame.side frame.color
          frame.entry (above rest) (pointer promoted) (pointer frame.sibling))) },
      ?_, ⟨?_, ?_, ?_⟩, ?_, ?_⟩
    · rw [above_cons, unlink, if_neg (Nat.ne_of_gt positive), dirIs]
      simp only [Option.bind_eq_bind, Option.bind_some, written]
      rfl
    · exact put_same _ _ _
    · exact stored_put apart.1.1 sibling
    · exact holds_put apart.1.2 outer
    · intro address away
      refine put_other (fun same => away ?_)
      rw [same]
      simp [contextPlaces]
    · rw [plug_cons]
      exact represents.root.trans (pointer_plug_congr rest (by simp))

/-- The first writes of a removal put the child in the place of the node. Without the
node, the store holds the tree without it. -/
theorem detach_spec
    (represents : Represents store (plug context (join side color .leaf entry promoted))) :
    ∃ linked detached, unlink store (above context) entry.address (pointer promoted) =
        some (linked, headSide context .left) ∧
      adopt linked (pointer promoted) (above context) = some detached ∧
      Represents (freeNode detached entry.address) (plug context promoted) := by
  obtain ⟨linked, links, linkedHolds, linkedOther, linkedRoot⟩ := unlink_spec represents
  obtain ⟨_, _, _, _, promotedStored, flat⟩ := represents_focus represents
  have perm := (places_plug context _).trans (List.Perm.append_left _
    (places_join side color .leaf promoted entry))
  have permAfter := places_plug context promoted
  simp only [show places (.leaf : RedBlack.Tree Entry) = [] from rfl, nil_append] at perm flat
  have inside (address : Nat) (member : address ∈ contextPlaces context ++ places promoted) :
      0 < address ∧ address < addresses :=
    represents.valid address (perm.mem_iff.mpr (by grind))
  simp only [nodup_append, nodup_cons, mem_cons] at flat
  have linkedPromoted : Stored linked.nodes entry.address promoted :=
    stored_congr (fun address member => linkedOther address (by grind)) promotedStored
  obtain ⟨nodes, adopts, adopted, adoptedOther⟩ := adopt_spec (above context) linkedPromoted
    flat.2.1.2 (fun address member => (inside address (mem_append_right _ member)).1)
  refine ⟨linked, _, links, adopts, linkedRoot, ?_, ?_, ?_, ?_⟩
  · rw [stored_plug]
    refine ⟨holds_put (by grind) (holds_congr (fun address member => ?_) linkedHolds),
      stored_put flat.2.1.1 adopted⟩
    exact adoptedOther address (by grind)
  · rw [permAfter.nodup_iff, nodup_append]
    exact ⟨flat.1, flat.2.1.2, by grind⟩
  · exact fun address member => inside address (permAfter.mem_iff.mp member)
  · intro address away
    have outside := mt permAfter.mem_iff.mpr away
    simp only [mem_append, not_or] at outside
    by_cases same : address = entry.address
    · rw [same]
      exact put_same _ _ _
    · refine (put_other same).trans ((adoptedOther address outside.2).trans
        ((linkedOther address outside.1).trans (represents.only address ?_)))
      exact mt perm.mem_iff.mp (by grind)

/-- Freeing a node does not change what is read at another address. -/
theorem load_free_node (different : probe ≠ address) :
    load (freeNode store address) probe = load store probe := by
  unfold load
  split
  · rfl
  · exact put_other different

/-- A write at another address can be moved past the freeing of a node. -/
theorem update_free_node (different : probe ≠ address) (change : Node → Node) :
    update (freeNode store address) probe change =
      (update store probe change).map (freeNode · address) := by
  rw [update, load_free_node different, update]
  cases load store probe with
  | none => rfl
  | some node =>
    simp only [Option.bind_eq_bind, Option.bind_some, Option.map_some, freeNode]
    congr 2
    funext cell
    simp only [put]
    split <;> split <;> simp_all

/-- The child put in the place of a node without an inner child. -/
theorem image_promoted (parent promoted : Nat) :
    (image side color entry parent 0 promoted).child
      (if (image side color entry parent 0 promoted).child .left = 0 then .right else .left) =
      promoted := by
  cases side with
  | left => rfl
  | right =>
    by_cases absent : promoted = 0
    · subst absent
      rfl
    · rw [if_neg (by exact absent)]
      rfl

/-- The removal of a node with at most one child, with what it reads resolved. -/
theorem remove_round
    (represents : Represents store (plug context (join side color .leaf entry promoted))) :
    ∃ detached, Represents (freeNode detached entry.address) (plug context promoted) ∧
      pointer promoted ≠ entry.address ∧
      removeNode store entry.address =
        if (color == .red) ≠ (promoted.color == .red) then do
          let store ←
            if color = .black then
              update detached (pointer promoted) (fun child =>
                { child with color := if child.color = .red then .black else .red })
            else some detached
          some (freeNode store entry.address)
        else (do
          let store ←
            if above context ≠ 0 then
              update (freeNode detached entry.address) (above context)
                (fun parent => parent.setChild (headSide context .left) 0)
            else some (freeNode detached entry.address)
          deleteFixup addresses store (above context) (headSide context .left)) := by
  obtain ⟨linked, detached, links, adopts, after⟩ := detach_spec represents
  have focus := represents_focus represents
  have different : pointer promoted ≠ entry.address := by
    rcases tree_cases .left promoted with rfl | ⟨color', inner, other, outer, rfl⟩
    · exact Nat.ne_of_lt focus.positive
    · have apart := (nodup_cons.mp (nodup_append.mp focus.distinct).2.1).1
      rw [pointer_join]
      rintro same
      exact apart (mem_append_right _ (same ▸ pointer_mem .left color' inner outer other))
  have red : isRed detached (pointer promoted) = some (promoted.color == .red) := by
    have read := represents_is_red after
    rwa [isRed, load_free_node different] at read
  have node := represents_load represents
  rw [pointer_leaf] at node
  refine ⟨detached, after, different, ?_⟩
  simp only [removeNode, node, Option.bind_eq_bind, Option.bind_some, image_promoted, image_parent,
    image_color, links, adopts, red]

theorem update_same {node : Node} {change : Node → Node} (positive : 0 < address)
    (here : store.nodes address = some node) (same : change node = node) :
    update store address change = some store := by
  rw [update_eq store change positive here, same, ← here]
  congr 2
  funext cell
  rw [put]
  split
  · next isHere => rw [isHere]
  · rfl

/-- Taking out a node with at most one child: a red node just goes, a red child is
painted black in its place, and a black node without a child leaves a hole for the
fix-up. -/
theorem remove_node_spec
    (represents : Represents store (plug context (join side color .leaf entry promoted)))
    (black : (plug context (join side color .leaf entry promoted)).color = .black)
    (balanced : ∃ height, Balanced (plug context (join side color .leaf entry promoted)) height) :
    Settles (removeNode store entry.address) (plug context promoted).toList := by
  obtain ⟨whole, wholeBalanced⟩ := balanced
  obtain ⟨height, accepts, here, colors⟩ := balanced_split _ _ _ wholeBalanced
  have depth := represents_depth represents
  obtain ⟨detached, after, different, result⟩ := remove_round represents
  rw [color_join] at colors
  rw [result]
  rcases balanced_only_child here with ⟨rfl, rfl⟩ | ⟨red, flat, rfl, rfl⟩
  · rcases color_cases color with rfl | rfl
    · -- A black node without a child.
      rw [if_neg (by simp)]
      cases context with
      | nil => exact ⟨_, _, rfl, after, rfl, rfl, 0, rfl⟩
      | cons frame rest =>
        have focus := represents_focus (plug_cons frame rest _ ▸ after)
        rw [above_cons, if_pos (Nat.ne_of_gt focus.positive), headSide,
          update_same focus.positive focus.cell (image_set_child _ _ _ _ _ _ _)]
        refine delete_fixup_spec addresses after accepts rfl
          (color_plug_black _ black (.inl rfl)) ?_
        rw [length_cons] at depth
        cases side <;> simp only [join, RedBlack.Tree.toList, length_append, length_cons] at depth
          <;> omega
    · -- A red node without a child.
      rw [if_pos (by simp), if_neg (by decide)]
      exact ⟨_, _, rfl, after, rfl, color_plug_black _ black (.inl rfl),
        balanced_plug _ _ _ accepts rfl (fun _ => rfl)⟩
  · -- A black node with a red child.
    obtain ⟨inner, other, outer, rfl⟩ := red_cases .left promoted red
    obtain ⟨painted, paints, paintedRepresents⟩ := represents_paint after .black
    have focus := represents_focus after
    rw [pointer_join] at different
    have toggles : update (freeNode detached entry.address) other.address (fun child =>
        { child with color := if child.color = .red then .black else .red }) = some painted := by
      rw [← paints, paint, update_eq _ _ focus.positive focus.cell,
        update_eq _ _ focus.positive focus.cell, image_color, if_pos rfl]
    rw [update_free_node different] at toggles
    obtain ⟨toggled, updates, rfl⟩ := Option.map_eq_some_iff.mp toggles
    rw [if_pos (by simp), if_pos rfl, pointer_join, updates]
    refine ⟨_, _, rfl, paintedRepresents, to_list_plug_congr _ (to_list_join_congr rfl rfl),
      color_plug_black _ black (.inl (color_join _ _ _ _ _)), ?_⟩
    have painted := balanced_paint_red flat red
    rw [paint_join] at painted
    exact balanced_plug _ _ _ accepts painted (fun _ => color_join _ _ _ _ _)

end Removal

/-- A node's key and value, without its place in memory. -/
def pair (entry : Entry) : Nat × Nat := (entry.key, entry.value)

/-- The keys and values of a tree in order. -/
def pairs (tree : RedBlack.Tree Entry) : List (Nat × Nat) := tree.toList.map pair

/-- One pair is gone; the others are as before. -/
def Deletes (tree : RedBlack.Tree Entry) (entry : Entry) (tree' : RedBlack.Tree Entry) : Prop :=
  ∃ lower upper, pairs tree = lower ++ pair entry :: upper ∧ pairs tree' = lower ++ upper

theorem ordered_pairs (tree : RedBlack.Tree Entry) :
    Ordered tree ↔ (pairs tree).Pairwise (fun first second => first.1 < second.1) := by
  rw [Ordered, pairs, pairwise_map, pairwise_map]
  rfl

variable {tree : RedBlack.Tree Entry} {entry : Entry}

theorem ordered_deletes (ordered : Ordered tree) (deletes : Deletes tree entry tree') :
    Ordered tree' := by
  obtain ⟨lower, upper, whole, less⟩ := deletes
  rw [ordered_pairs, whole] at ordered
  rw [ordered_pairs, less]
  exact ordered.sublist (List.Sublist.append_left (sublist_cons_self _ _) _)

variable {store : Store}

theorem settles_deletes {result : Option Store} {entries : List Entry} (entry : Entry)
    (lower upper : List (Nat × Nat)) (valid : Valid store tree)
    (settles : Settles result entries) (whole : pairs tree = lower ++ pair entry :: upper)
    (less : entries.map pair = lower ++ upper) :
    ∃ after tree', result = some after ∧ Valid after tree' ∧ Deletes tree entry tree' := by
  obtain ⟨after, tree', isResult, represents, rfl, black, balanced⟩ := settles
  have deletes : Deletes tree entry tree' := ⟨lower, upper, whole, less⟩
  exact ⟨after, tree', isResult, ⟨represents, ordered_deletes valid.ordered deletes, black,
    balanced⟩, deletes⟩

variable {context : List (Frame Entry)}

/-- Taking out a node with at most one child leaves the other nodes in their places. -/
theorem remove_entries (side : Side)
    (valid : Valid store (plug context (join side color .leaf entry promoted))) :
    ∃ after tree' lower upper, removeNode store entry.address = some after ∧ Valid after tree' ∧
      (plug context (join side color .leaf entry promoted)).toList = lower ++ entry :: upper ∧
      tree'.toList = lower ++ upper := by
  obtain ⟨store', tree', isResult, represents, entries, black, balanced⟩ :=
    remove_node_spec valid.represents valid.black valid.balanced
  rw [to_list_plug] at entries
  obtain ⟨lower, upper, whole, less⟩ : ∃ lower upper,
      (plug context (join side color .leaf entry promoted)).toList = lower ++ entry :: upper ∧
      tree'.toList = lower ++ upper := by
    cases side with
    | left =>
      exact ⟨before context, promoted.toList ++ after context,
        by simp [to_list_plug, join, RedBlack.Tree.toList], by simp [entries]⟩
    | right =>
      exact ⟨before context ++ promoted.toList, after context,
        by simp [to_list_plug, join, RedBlack.Tree.toList], entries⟩
  have deletes : Deletes (plug context (join side color .leaf entry promoted)) entry tree' :=
    ⟨lower.map pair, upper.map pair, by simp [pairs, whole], by simp [pairs, less]⟩
  exact ⟨store', tree', lower, upper, isResult, ⟨represents, ordered_deletes valid.ordered deletes,
    black, balanced⟩, whole, less⟩

/-- `rbt_delete` of a node with at most one child. -/
theorem remove_deletes (side : Side)
    (valid : Valid store (plug context (join side color .leaf entry promoted))) :
    ∃ after tree', removeNode store entry.address = some after ∧ Valid after tree' ∧
      Deletes (plug context (join side color .leaf entry promoted)) entry tree' := by
  obtain ⟨after, tree', lower, upper, removes, afterValid, whole, less⟩ := remove_entries side valid
  exact ⟨after, tree', removes, afterValid, lower.map pair, upper.map pair,
    by simp [pairs, whole], by simp [pairs, less]⟩

/-- `rbt_delete` of a node with two children: the successor, the leftmost node at the
right, gives its key and value to the node and is removed. -/
theorem successor_deletes {rightEntry : Entry}
    (valid : Valid store
      (plug context (join .left color left entry (.node rightColor inner rightEntry outer)))) :
    ∃ successor moved after tree', leftmost addresses store rightEntry.address = some successor ∧
      load store successor = some moved ∧
      (update store entry.address (fun node =>
        { node with key := moved.key, value := moved.value })).bind (removeNode · successor) =
        some after ∧
      Valid after tree' ∧
      Deletes (plug context (join .left color left entry (.node rightColor inner rightEntry outer)))
        entry tree' := by
  have represents := valid.represents
  have size := represents_depth (represents_outer represents)
  simp only [RedBlack.Tree.toList, length_append, length_cons] at size
  obtain ⟨lower, firstColor, first, rest, same, leftOnly, found⟩ :=
    leftmost_spec addresses (represents_outer represents) (by omega)
  have descends (here : Entry) :
      plug (lower ++ { side := .right, color := color, entry := here, sibling := left } :: context)
        (join .left firstColor .leaf first rest) =
      plug context (join .left color left here (.node rightColor inner rightEntry outer)) := by
    rw [plug_append, show plug lower (join .left firstColor .leaf first rest) = _ from same]
    rfl
  have successorNode := represents_load (descends entry ▸ represents)
  have focus := represents_focus represents
  -- The node takes over the data of its successor; for a moment the key is there twice.
  generalize takenOver : ({ entry with key := first.key, value := first.value } : Entry) = copy
  have samePair : pair copy = pair first := by
    rw [← takenOver]
    rfl
  have rewritten := represents_rewrite represents color copy (by rw [← takenOver])
  have black : (plug context (join .left color left copy
      (.node rightColor inner rightEntry outer))).color = .black :=
    color_plug_black context valid.black (.inr (by simp))
  have balanced := balanced_entry context .left color left
    (.node rightColor inner rightEntry outer) copy valid.balanced
  rw [← descends copy] at rewritten black balanced
  have settles := remove_node_spec rewritten black balanced
  obtain ⟨after, tree', removes, afterValid, deletes⟩ := settles_deletes entry
    ((before context ++ left.toList).map pair)
    ((first :: rest.toList ++ RedBlack.after lower ++ RedBlack.after context).map pair) valid settles
    (by
      rw [← descends entry, pairs, to_list_plug, before_append, after_append, leftOnly]
      simp [before, RedBlack.after, join, RedBlack.Tree.toList])
    (by
      rw [to_list_plug, before_append, after_append, leftOnly]
      simp [before, RedBlack.after, samePair])
  refine ⟨first.address, _, after, tree', found, successorNode, ?_, afterValid, deletes⟩
  rw [update_eq store _ focus.positive focus.cell, Option.bind_some, ← removes, image_key,
    image_value]
  congr 3
  subst takenOver
  rfl

theorem rbt_delete_cases
    (here : Represents store (plug context (join .left color left entry right))) :
    rbtDelete store entry.address =
      if pointer left ≠ 0 ∧ pointer right ≠ 0 then do
        let successor ← leftmost addresses store (pointer right)
        let moved ← load store successor
        (update store entry.address (fun node =>
          { node with key := moved.key, value := moved.value })).bind (removeNode · successor)
      else removeNode store entry.address := by
  rw [rbtDelete, if_neg (Nat.ne_of_gt (represents_focus here).positive), represents_load here]
  rfl

/-- `rbt_delete` of a node with at most one child takes out this node and keeps the others. -/
theorem rbt_delete_single (valid : Valid store tree) (member : entry ∈ tree.toList)
    (single : ∀ node, load store entry.address = some node → node.left = 0 ∨ node.right = 0) :
    ∃ after tree' lower upper, rbtDelete store entry.address = some after ∧ Valid after tree' ∧
      tree.toList = lower ++ entry :: upper ∧ tree'.toList = lower ++ upper := by
  obtain ⟨context, color, left, right, rfl⟩ := entry_split tree entry member
  have here : Represents store (plug context (join .left color left entry right)) :=
    valid.represents
  rw [rbt_delete_cases here]
  rcases tree_cases .left left with rfl | ⟨leftColor, a, leftEntry, b, rfl⟩
  · rw [if_neg (by simp)]
    exact remove_entries .left valid
  rcases tree_cases .left right with rfl | ⟨rightColor, c, rightEntry, d, rfl⟩
  · rw [if_neg (by simp)]
    exact remove_entries .right valid
  have leftPositive := (represents_focus (represents_inner here)).positive
  have rightPositive := (represents_focus (represents_outer here)).positive
  have children : leftEntry.address = 0 ∨ rightEntry.address = 0 := by
    simpa [image] using single _ (represents_load here)
  omega

/-- `rbt_delete` of a node of the tree returns, keeps a red-black search tree, and
deletes the node's pair. -/
theorem rbt_delete_spec (valid : Valid store tree) (member : entry ∈ tree.toList) :
    ∃ after tree', rbtDelete store entry.address = some after ∧ Valid after tree' ∧
      Deletes tree entry tree' := by
  obtain ⟨context, color, left, right, rfl⟩ := entry_split tree entry member
  have here : Represents store (plug context (join .left color left entry right)) :=
    valid.represents
  rw [rbt_delete_cases here]
  rcases tree_cases .left left with rfl | ⟨leftColor, a, leftEntry, b, rfl⟩
  · rw [if_neg (by simp)]
    exact remove_deletes .left valid
  rcases tree_cases .left right with rfl | ⟨rightColor, c, rightEntry, d, rfl⟩
  · rw [if_neg (by simp)]
    exact remove_deletes .right valid
  have leftPositive := (represents_focus (represents_inner here)).positive
  have rightPositive := (represents_focus (represents_outer here)).positive
  obtain ⟨successor, moved, after, tree', found, read, removes, afterValid, deletes⟩ :=
    successor_deletes valid
  rw [if_pos ⟨by rw [pointer_join]; omega, by rw [pointer_join]; omega⟩]
  refine ⟨after, tree', ?_, afterValid, deletes⟩
  rw [pointer_join, found]
  simp only [Option.bind_eq_bind, Option.bind_some, read]
  exact removes

/-- `rbt_delete_key` deletes the pair with the key, and leaves the store alone when
there is none. -/
theorem rbt_delete_key_spec (valid : Valid store tree) (key : Nat) :
    (∃ entry ∈ tree.toList, entry.key = key ∧ ∃ after tree', rbtDeleteKey store key = some after ∧
      Valid after tree' ∧ Deletes tree entry tree') ∨
    ((∀ entry ∈ tree.toList, entry.key ≠ key) ∧ rbtDeleteKey store key = some store) := by
  rcases rbt_search_spec valid key with ⟨entry, member, isKey, result⟩ | ⟨missing, result⟩
  · obtain ⟨after, tree', deleted, afterValid, deletes⟩ := rbt_delete_spec valid member
    refine .inl ⟨entry, member, isKey, after, tree', ?_, afterValid, deletes⟩
    rw [rbtDeleteKey, result]
    exact deleted
  · refine .inr ⟨missing, ?_⟩
    rw [rbtDeleteKey, result]
    rfl

end Balrog.RbtDelete
