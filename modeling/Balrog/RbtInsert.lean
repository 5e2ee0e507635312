import Balrog.RbtSearch

/-!
# Insertion into the red-black tree

The fix-up loop stands at a red node whose parent may be red too; everywhere else
the tree is balanced. One pass through the body either recolors and moves two levels
up, or rotates once or twice and is done. Each outcome is a lemma over the store and
over the context above the node.

The grandparent exists because the root is black, and the uncle is compared with
null before it is read, so no pass reads through a null pointer.
-/

namespace Balrog.RbtInsert

open RedBlack RbtNodes RbtShape RbtSearch
open List hiding rotate after

section Body

variable {store : Store} {parent grand : Frame Entry} {rest : List (Frame Entry)}
  {entry : Entry} {inner outer : RedBlack.Tree Entry} {side : Side} {color : Color}

theorem body_recolors (represents : Represents store (plug (parent :: grand :: rest)
      (join side color inner entry outer))) (uncleRed : grand.sibling.color = .red) :
    ∃ painted, insertFixupBody store entry.address = some (painted, grand.entry.address) ∧
      Represents painted (plug rest (join grand.side .red
        (join parent.side .black (join side color inner entry outer) parent.entry parent.sibling)
        grand.entry (grand.sibling.paint .black))) := by
  obtain ⟨left, uncle, right, sibling⟩ := red_cases .left grand.sibling uncleRed
  have node := represents_load represents
  rw [plug_cons] at represents
  have parentNode := represents_load represents
  have dir := represents_get_dir represents
  have grandNode := represents_load (plug_cons grand rest _ ▸ represents)
  have uncleIsRed : isRed store (pointer grand.sibling) = some true := by
    rw [represents_is_red (plug_turn grand rest _ ▸ represents), uncleRed]
    rfl
  obtain ⟨first, firstPaint, represents⟩ := represents_paint represents .black
  rw [plug_turn, sibling] at represents
  obtain ⟨second, secondPaint, represents⟩ := represents_paint represents .black
  rw [plug_cons, join_flip] at represents
  obtain ⟨third, thirdPaint, represents⟩ := represents_paint represents .red
  refine ⟨third, ?_, by rw [sibling, paint_join]; exact represents⟩
  simp only [sibling, pointer_join] at uncleIsRed grandNode
  simp only [insertFixupBody, node, image_parent, above_cons, parentNode, dir, grandNode,
    image_child_flip, uncleIsRed, Option.bind_eq_bind, Option.bind_some, if_true, firstPaint,
    secondPaint, thirdPaint]

/-- The uncle is black and the node is on the outer side: one rotation at the
grandparent. -/
theorem body_rotates_outer (represents : Represents store (plug (parent :: grand :: rest)
      (join side color inner entry outer))) (uncleBlack : grand.sibling.color = .black)
    (straight : parent.side = grand.side) :
    ∃ turned, insertFixupBody store entry.address = some (turned, parent.entry.address) ∧
      Represents turned (plug rest (join grand.side.flip grand.color
        (join grand.side.flip parent.color grand.sibling grand.entry parent.sibling) parent.entry
        (join side color inner entry outer))) := by
  have node := represents_load represents
  have different := sibling_ne represents rfl
  rw [plug_cons] at represents
  have parentNode := represents_load represents
  have dir := represents_get_dir represents
  have grandNode := represents_load (plug_cons grand rest _ ▸ represents)
  have uncleIsBlack : isRed store (pointer grand.sibling) = some false := by
    rw [represents_is_red (plug_turn grand rest _ ▸ represents), uncleBlack]
    rfl
  -- Seen from the uncle's side the parent is the pivot.
  rw [plug_cons, straight, join_straight] at represents
  obtain ⟨turned, rotated, represents⟩ := represents_rotate represents
  have parentTurned := represents_load represents
  have grandTurned := represents_load (represents_inner represents)
  obtain ⟨first, firstPaint, represents⟩ := represents_paint represents grand.color
  obtain ⟨second, secondPaint, represents⟩ := represents_paint (represents_inner represents)
    parent.color
  refine ⟨second, ?_, represents⟩
  rw [straight] at parentNode
  simp only [insertFixupBody, node, image_parent, above_cons, parentNode, dir, grandNode,
    image_child_flip, uncleIsBlack, Option.bind_eq_bind, Option.bind_some, Bool.false_eq_true,
    if_false, different, rotated, parentTurned, grandTurned, image_color, firstPaint, secondPaint]

/-- The uncle is black and the node is on the inner side: a rotation at the parent
brings it to the outer side, with the roles of node and parent exchanged. -/
theorem body_rotates_inner (represents : Represents store (plug (parent :: grand :: rest)
      (join grand.side color inner entry outer))) (uncleBlack : grand.sibling.color = .black)
    (bent : parent.side = grand.side.flip) :
    ∃ turned, insertFixupBody store entry.address = some (turned, entry.address) ∧
      Represents turned (plug rest (join grand.side.flip grand.color
        (join grand.side.flip color grand.sibling grand.entry outer) entry
        (join grand.side parent.color parent.sibling parent.entry inner))) := by
  have node := represents_load represents
  rw [plug_cons] at represents
  have parentNode := represents_load represents
  have dir := represents_get_dir represents
  have grandNode := represents_load (plug_cons grand rest _ ▸ represents)
  have uncleIsBlack : isRed store (pointer grand.sibling) = some false := by
    rw [represents_is_red (plug_turn grand rest _ ▸ represents), uncleBlack]
    rfl
  rw [bent, join_flip] at represents
  obtain ⟨straightened, firstTurn, represents⟩ := represents_rotate represents
  have parentLower := represents_load (represents_inner represents)
  have entryUpper := represents_load represents
  rw [plug_cons, join_straight] at represents
  obtain ⟨turned, secondTurn, represents⟩ := represents_rotate represents
  have entryTurned := represents_load represents
  have grandTurned := represents_load (represents_inner represents)
  obtain ⟨first, firstPaint, represents⟩ := represents_paint represents grand.color
  obtain ⟨second, secondPaint, represents⟩ := represents_paint (represents_inner represents) color
  refine ⟨second, ?_, represents⟩
  rw [bent, image_flip] at parentNode
  simp only [insertFixupBody, node, image_parent, above_cons, parentNode, dir, grandNode,
    image_child_flip, uncleIsBlack, Option.bind_eq_bind, Option.bind_some, Bool.false_eq_true,
    if_false, pointer_join, if_true, firstTurn, parentLower, entryUpper, secondTurn, entryTurned,
    grandTurned, image_color, firstPaint, secondPaint]

end Body

variable {context : List (Frame Entry)}
  {entry : Entry} {inner outer : RedBlack.Tree Entry} {side : Side} {color : Color}

variable {store : Store}

theorem blacken_root_spec
    (represents : Represents store (plug context (join side color inner entry outer))) :
    ∃ painted, blackenRoot store = some painted ∧
      Represents painted ((plug context (join side color inner entry outer)).paint .black) := by
  rcases tree_cases .left (plug context (join side color inner entry outer)) with
    leaf | ⟨rootColor, rootInner, rootEntry, rootOuter, whole⟩
  · have member := (places_plug context (join side color inner entry outer)).mem_iff.mpr
      (mem_append_right _ (pointer_mem side color inner outer entry))
    rw [leaf] at member
    cases member
  · rw [whole] at represents ⊢
    have root := represents.root
    rw [pointer_join] at root
    have atRoot : Represents store
        (plug [] (join .left rootColor rootInner rootEntry rootOuter)) := represents
    obtain ⟨painted, paints, represents⟩ := represents_paint atRoot .black
    exact ⟨painted, by rw [blackenRoot, root]; exact paints, by rw [paint_join]; exact represents⟩

variable {height key : Nat} {store : Store} {tree left right : RedBlack.Tree Entry}

/-- Where the loop stops the tree is balanced already, but for the color of the
root. -/
theorem blacken_root_settles
    (represents : Represents store (plug context (join side color inner entry outer)))
    (balanced : Balanced (plug context (join side color inner entry outer)) height) :
    Settles (blackenRoot store) (plug context (join side color inner entry outer)).toList := by
  obtain ⟨painted, result, represents⟩ := blacken_root_spec represents
  exact ⟨painted, _, result, represents, to_list_paint _ _, color_paint_black _,
    balanced_paint_black balanced⟩

theorem insert_fixup_black (fuel : Nat)
    (represents : Represents store (plug context (join side .black inner entry outer))) :
    insertFixup (fuel + 1) store entry.address = blackenRoot store := by
  rw [insertFixup, represents_load represents]
  simp

/-- `__insert_fixup` from a red node, with everything else in order, ends in a
red-black tree with the same entries.

Induction is on the fuel; a recoloring shortens the context by two frames, and the root being
black there is a grandparent whenever the parent is red. -/
theorem insert_fixup_spec (fuel : Nat)
    (represents : Represents store (plug context (join side .red inner entry outer)))
    (accepts : Accepts context height)
    (balanced : Balanced (join side .red inner entry outer) height)
    (rootBlack : ∀ frame, context.getLast? = some frame → frame.color = .black)
    (enough : context.length < fuel) :
    Settles (insertFixup fuel store entry.address)
      (plug context (join side .red inner entry outer)).toList := by
  induction fuel generalizing store side inner outer entry context height with
  | zero => omega
  | succ fuel ih =>
    cases context with
    | nil =>
      have root : entry.address = store.root := by
        rw [represents.root, plug_nil, pointer_join]
      rw [insertFixup, if_pos root]
      exact blacken_root_settles represents balanced
    | cons parent above =>
      have notRoot := represents_root_ne represents
      have node := represents_load represents
      have parentNode := represents_load (plug_cons parent above _ ▸ represents)
      rcases color_cases parent.color with parentBlack | parentRed
      · obtain ⟨whole, wholeBalanced⟩ := balanced_plug _ _ _ accepts balanced (by
          rw [headColor, parentBlack]
          exact fun red => by cases red)
        rw [insertFixup, if_neg notRoot, node]
        simp only [Option.bind_eq_bind, Option.bind_some, image_color, reduceCtorEq, if_false,
          image_parent, above_cons, parentNode, parentBlack]
        exact blacken_root_settles represents wholeBalanced
      · cases above with
        | nil =>
          have parentBlack := rootBlack parent rfl
          rw [parentRed] at parentBlack
          cases parentBlack
        | cons grand rest =>
          have looped : insertFixup (fuel + 1) store entry.address =
              (insertFixupBody store entry.address).bind
                (fun next => insertFixup fuel next.1 next.2) := by
            rw [insertFixup, if_neg notRoot, node]
            simp only [Option.bind_eq_bind, Option.bind_some, image_color, reduceCtorEq, if_false,
              image_parent, above_cons, parentNode, parentRed, if_true]
          have grandBlack : grand.color = .black := (accepts.2.1 parentRed).2
          obtain ⟨more, rfl⟩ : ∃ more, fuel = more + 1 := ⟨fuel - 1, by
            simp only [length_cons] at enough
            omega⟩
          rcases color_cases grand.sibling.color with uncleBlack | uncleRed
          · obtain ⟨siblingBalanced, siblingColor, uncleBalanced, _, upper⟩ := accepts
            rw [parentRed, weight_red, Nat.add_zero] at uncleBalanced upper
            rw [grandBlack, weight_black] at upper
            have siblingBlack := (siblingColor parentRed).1
            rcases side_cases parent.side grand.side with straight | bent
            · obtain ⟨turned, result, represents⟩ :=
                body_rotates_outer represents uncleBlack straight
              rw [grandBlack, parentRed] at represents
              obtain ⟨whole, wholeBalanced⟩ := balanced_plug rest _ _ upper (balanced_black
                grand.side.flip parent.entry (balanced_red grand.side.flip grand.entry
                  uncleBalanced siblingBalanced uncleBlack siblingBlack) balanced)
                (fun _ => color_join _ _ _ _ _)
              have settled := blacken_root_settles represents wholeBalanced
              rw [looped, result, Option.bind_some, insert_fixup_black more represents]
              rw [to_list_plug_congr rest (to_list_straight grand.side .black .red grand.color
                parent.color _ _ _ _ _)] at settled
              rwa [plug_cons, plug_cons, straight]
            · obtain ⟨inner', outer', view⟩ := join_view side grand.side .red inner outer entry
              rw [view] at represents balanced ⊢
              obtain ⟨innerBalanced, outerBalanced, innerBlack, outerBlack⟩ :=
                balanced_red_parts grand.side balanced
              obtain ⟨turned, result, represents⟩ :=
                body_rotates_inner represents uncleBlack bent
              rw [grandBlack, parentRed] at represents
              obtain ⟨whole, wholeBalanced⟩ := balanced_plug rest _ _ upper (balanced_black
                grand.side.flip entry (balanced_red grand.side.flip grand.entry uncleBalanced
                  outerBalanced uncleBlack outerBlack) (balanced_red grand.side parent.entry
                  siblingBalanced innerBalanced siblingBlack innerBlack))
                (fun _ => color_join _ _ _ _ _)
              have settled := blacken_root_settles represents wholeBalanced
              rw [looped, result, Option.bind_some, insert_fixup_black more represents]
              rw [to_list_plug_congr rest (to_list_bent grand.side .black .red .red grand.color
                parent.color .red _ _ _ _ _ _ _)] at settled
              rwa [plug_cons, plug_cons, bent]
          · obtain ⟨painted, result, represents⟩ := body_recolors represents uncleRed
            obtain ⟨upper, recolored⟩ := recolored_accepts accepts parentRed uncleRed balanced
            rw [looped, result, Option.bind_some]
            simp only [length_cons] at enough
            have settled := ih represents upper recolored (by
              intro frame last
              refine rootBlack frame ?_
              cases rest with
              | nil => cases last
              | cons next others => rwa [getLast?_cons_cons, getLast?_cons_cons])
              (by omega)
            rwa [to_list_plug_congr rest (@to_list_join_congr _ grand.side .red grand.color _ _ _ _
              grand.entry (@to_list_join_congr _ parent.side .black parent.color _ _ _ _ parent.entry
                rfl rfl)
              (to_list_paint .black grand.sibling))] at settled

/-- The place where a key belongs: smaller keys stand before it, greater ones after. -/
structure Hole (context : List (Frame Entry)) (key : Nat) : Prop where
  below : ∀ entry ∈ before context, entry.key < key
  above : ∀ entry ∈ after context, key < entry.key

/-- No entry around a hole has the key that belongs there. -/
theorem Hole.key_ne (hole : Hole context key) (member : entry ∈ (plug context .leaf).toList) :
    entry.key ≠ key := by
  rw [to_list_plug, to_list_leaf, append_nil] at member
  rcases mem_append.mp member with lower | upper
  · exact Nat.ne_of_lt (hole.below entry lower)
  · exact Nat.ne_of_gt (hole.above entry upper)

theorem hole_descends (ordered : Ordered (plug context (.node color left entry right)))
    (hole : Hole context key) :
    (entry.key < key →
      Hole ({ side := .right, color := color, entry := entry, sibling := left } :: context) key) ∧
    (key < entry.key →
      Hole ({ side := .left, color := color, entry := entry, sibling := right } :: context) key) := by
  obtain ⟨leftBelow, rightAbove⟩ := ordered_around ordered
  constructor
  · intro larger
    refine ⟨?_, hole.above⟩
    intro other member
    simp only [before, mem_append, mem_singleton] at member
    rcases member with outer | inner | rfl
    · exact hole.below other outer
    · exact Nat.lt_trans (leftBelow other inner) larger
    · exact larger
  · intro smaller
    refine ⟨hole.below, ?_⟩
    intro other member
    simp only [after, mem_append, mem_cons, cons_append] at member
    rcases member with rfl | inner | outer
    · exact smaller
    · exact Nat.lt_trans smaller (rightAbove other inner)
    · exact hole.above other outer

/-- The descent of `rbt_insert` ends at the node with the key, or at the empty place
where it belongs.

Induction is on the subtree still ahead; the context grows by the node passed. -/
theorem insert_loop_spec (fuel : Nat) (key : Nat)
    (represents : Represents store (plug context tree)) (ordered : Ordered (plug context tree))
    (hole : Hole context key) (enough : tree.toList.length < fuel) :
    (∃ entry ∈ tree.toList, entry.key = key ∧
      insertLoop fuel store (pointer tree) (above context) (headSide context .left) key =
        some (.inl entry.address)) ∨
    (∃ lower, plug lower .leaf = plug context tree ∧ Hole lower key ∧
      insertLoop fuel store (pointer tree) (above context) (headSide context .left) key =
        some (.inr (above lower, headSide lower .left))) := by
  induction tree generalizing fuel context with
  | leaf =>
    obtain ⟨more, rfl⟩ : ∃ more, fuel = more + 1 := ⟨fuel - 1, by simp at enough; omega⟩
    exact .inr ⟨context, rfl, hole, by simp [insertLoop]⟩
  | node color left entry right leftHypothesis rightHypothesis =>
    obtain ⟨more, rfl⟩ : ∃ more, fuel = more + 1 := ⟨fuel - 1, by omega⟩
    simp only [RedBlack.Tree.toList, length_append, length_cons] at enough
    have here : Represents store (plug context (join .left color left entry right)) := represents
    have positive := (represents_focus here).positive
    have node := represents_load here
    have walk : insertLoop (more + 1) store (pointer (.node color left entry right))
        (above context) (headSide context .left) key =
        if entry.key = key then some (.inl entry.address)
        else if entry.key < key then
          insertLoop more store (pointer right) entry.address .right key
        else insertLoop more store (pointer left) entry.address .left key := by
      rw [insertLoop, if_neg (by exact Nat.ne_of_gt positive),
        show pointer (.node color left entry right) = entry.address from rfl, node]
      simp only [Option.bind_eq_bind, Option.bind_some, image_key]
      split
      · rfl
      · split <;> rfl
    rw [walk]
    rcases Nat.lt_trichotomy entry.key key with larger | same | smaller
    · rw [if_neg (Nat.ne_of_lt larger), if_pos larger]
      have wider := (hole_descends ordered hole).1 larger
      rcases rightHypothesis more (represents_outer here) ordered wider (by omega) with
        ⟨found, member, isKey, result⟩ | ⟨lower, same, lowerHole, result⟩
      · exact .inl ⟨found, by simp [RedBlack.Tree.toList, member], isKey, result⟩
      · exact .inr ⟨lower, same, lowerHole, result⟩
    · rw [if_pos same]
      exact .inl ⟨entry, by simp [RedBlack.Tree.toList], same, rfl⟩
    · rw [if_neg (Nat.ne_of_gt smaller), if_neg (by omega)]
      have wider := (hole_descends ordered hole).2 smaller
      rcases leftHypothesis more (represents_inner here) ordered wider (by omega) with
        ⟨found, member, isKey, result⟩ | ⟨lower, same, lowerHole, result⟩
      · exact .inl ⟨found, by simp [RedBlack.Tree.toList, member], isKey, result⟩
      · exact .inr ⟨lower, same, lowerHole, result⟩

/-- `rbt_search` descends as `rbt_insert` does and returns null for an empty place. -/
theorem search_loop_eq (fuel : Nat) (store : Store) (current parent : Nat) (dir : Side)
    (key : Nat) : searchLoop fuel store current key =
      (insertLoop fuel store current parent dir key).map (Sum.elim id fun _ => 0) := by
  induction fuel generalizing current parent dir with
  | zero => rfl
  | succ fuel ih =>
    rw [searchLoop, insertLoop]
    split
    · rfl
    · cases load store current with
      | none => rfl
      | some node =>
        simp only [Option.bind_eq_bind, Option.bind_some]
        split
        · rfl
        · exact ih _ _ _

/-- `rbt_search` returns the node with the key, or null when there is none. -/
theorem rbt_search_spec (valid : Valid store tree) (key : Nat) :
    (∃ entry ∈ tree.toList, entry.key = key ∧ rbtSearch store key = some entry.address) ∨
      ((∀ entry ∈ tree.toList, entry.key ≠ key) ∧ rbtSearch store key = some 0) := by
  have atRoot : Represents store (plug [] tree) := valid.represents
  rw [rbtSearch, valid.represents.root, search_loop_eq _ _ _ (above []) (headSide [] .left)]
  rcases insert_loop_spec addresses key atRoot valid.ordered ⟨by simp [before], by simp [after]⟩
      (represents_size valid.represents) with
    ⟨entry, member, isKey, result⟩ | ⟨lower, rfl, hole, result⟩
  · rw [result]
    exact .inl ⟨entry, member, isKey, rfl⟩
  · rw [result]
    exact .inr ⟨fun entry => hole.key_ne, rfl⟩

/-- A tree of one red node. -/
def single (entry : Entry) : RedBlack.Tree Entry := join .left .red .leaf entry .leaf

/-- Hanging a new node into the hole of a context. -/
theorem attach_spec {frame : Frame Entry} {rest : List (Frame Entry)}
    (represents : Represents store (plug (frame :: rest) .leaf)) (fresh garbage key : Nat)
    (unused : store.nodes fresh = none) (positive : 0 < fresh) (bound : fresh < addresses) :
    ∃ created attached, createNode store fresh garbage frame.entry.address key = some created ∧
      update created frame.entry.address (fun node => node.setChild frame.side fresh) =
        some attached ∧
      Represents attached (plug (frame :: rest) (single ⟨fresh, key, garbage⟩)) := by
  have away : fresh ∉ places (plug (frame :: rest) .leaf) :=
    mt (represents_allocated represents fresh).mpr (not_not.mpr unused)
  obtain ⟨root, stored, distinct, valid, only⟩ := represents
  have perm := places_plug (frame :: rest) (.leaf : RedBlack.Tree Entry)
  have permNew := places_plug (frame :: rest) (single ⟨fresh, key, garbage⟩)
  rw [show places (.leaf : RedBlack.Tree Entry) = [] from rfl, append_nil] at perm
  rw [show places (single ⟨fresh, key, garbage⟩) = [fresh] from rfl] at permNew
  rw [stored_plug] at stored
  obtain ⟨⟨cell, sibling, outer⟩, _⟩ := stored
  have apart := perm.nodup_iff.mp distinct
  have outside := mt perm.mem_iff.mpr away
  have framePositive := (valid _ (perm.mem_iff.mpr
    (mem_append_left _ mem_cons_self))).1
  simp only [contextPlaces, cons_append, nodup_cons, mem_cons, mem_append,
    not_or] at apart outside
  generalize createdIs : put store.nodes fresh
    (some (image .left .red ⟨fresh, key, garbage⟩ frame.entry.address 0 0)) = nodes
  have cellKept : nodes frame.entry.address = some (image frame.side frame.color frame.entry
      (above rest) 0 (pointer frame.sibling)) := by
    rw [← createdIs, put_other (fun same => outside.1 same.symm)]
    exact cell
  refine ⟨{ store with nodes := nodes }, _, ?_,
    update_eq { store with nodes := nodes } _ framePositive cellKept, ?_, ?_, ?_, ?_, ?_⟩
  · rw [createNode, if_neg (by omega), ← createdIs]
    rfl
  · rw [root, plug_cons, plug_cons]
    exact pointer_plug_congr rest (by simp)
  · rw [stored_plug]
    simp only [image_set_child]
    refine ⟨⟨put_same _ _ _, stored_put apart.1.1 ?_, holds_put apart.1.2 ?_⟩, ?_, trivial, trivial⟩
    · rw [← createdIs]
      exact stored_put outside.2.1 sibling
    · rw [← createdIs]
      exact holds_put outside.2.2 outer
    · rw [put_other outside.1, ← createdIs, put_same]
      rfl
  · rw [permNew.nodup_iff, nodup_append]
    refine ⟨perm.nodup_iff.mp distinct, by simp, ?_⟩
    intro address inside other new same
    rw [mem_singleton.mp new] at same
    exact away (perm.mem_iff.mpr (same ▸ inside))
  · intro address member
    rcases mem_append.mp (permNew.mem_iff.mp member) with old | new
    · exact valid address (perm.mem_iff.mpr old)
    · rw [mem_singleton.mp new]
      exact ⟨positive, bound⟩
  · intro address absent
    have apartNew := mt permNew.mem_iff.mpr absent
    rw [mem_append, mem_singleton, not_or] at apartNew
    have notFrame : address ≠ frame.entry.address := fun same =>
      apartNew.1 (same ▸ mem_append_left _ mem_cons_self)
    have kept : nodes address = none := by
      rw [← createdIs, put_other apartNew.2]
      exact only address (mt perm.mem_iff.mp apartNew.1)
    exact (put_other notFrame).trans kept

theorem ordered_insert (entry : Entry) (ordered : Ordered (plug context .leaf))
    (hole : Hole context entry.key)
    (entries : tree.toList = before context ++ [entry] ++ after context) : Ordered tree := by
  unfold Ordered at ordered ⊢
  rw [to_list_plug, to_list_leaf, append_nil, pairwise_map, pairwise_append]
    at ordered
  rw [entries, pairwise_map, append_assoc, pairwise_append]
  obtain ⟨lower, upper, across⟩ := ordered
  refine ⟨lower, pairwise_cons.mpr ⟨hole.above, upper⟩, fun left leftMember => ?_⟩
  exact forall_mem_cons.mpr ⟨hole.below left leftMember, across left leftMember⟩

/-- What `rbt_insert` does to the entries: nothing when the key is there, and
otherwise one new entry at the fresh address. -/
def Inserts (tree : RedBlack.Tree Entry) (fresh garbage key pointer : Nat) (tree' : RedBlack.Tree Entry) : Prop :=
  (tree' = tree ∧ ∃ entry ∈ tree.toList, entry.key = key ∧ pointer = entry.address) ∨
  ((∀ entry ∈ tree.toList, entry.key ≠ key) ∧ pointer = fresh ∧
    ∃ lower upper, tree.toList = lower ++ upper ∧
      tree'.toList = lower ++ ⟨fresh, key, garbage⟩ :: upper)

theorem rbt_insert_empty (represents : Represents store .leaf) (fresh garbage key : Nat)
    (positive : 0 < fresh) (bound : fresh < addresses) :
    ∃ after, rbtInsert store fresh garbage key = some (fresh, after) ∧
      Valid after (join .left .black .leaf ⟨fresh, key, garbage⟩ .leaf) := by
  have root : store.root = 0 := represents.root
  have created : Represents
      { nodes := put store.nodes fresh (some (image .left .red ⟨fresh, key, garbage⟩ 0 0 0)),
        root := fresh } (plug [] (single ⟨fresh, key, garbage⟩)) := by
    refine ⟨rfl, ⟨put_same _ _ _, trivial, trivial⟩, by simp [single, places, join, RedBlack.Tree.toList],
      ?_, ?_⟩
    · intro address member
      rw [show address = fresh by simpa [single, places, join, RedBlack.Tree.toList] using member]
      exact ⟨positive, bound⟩
    · intro address absent
      have different : address ≠ fresh := by
        simpa [single, places, join, RedBlack.Tree.toList] using absent
      exact (put_other different).trans (represents.only address (by simp [places]))
  obtain ⟨painted, paints, represents⟩ := represents_paint created .black
  have painting : paint _ fresh .black = some painted := paints
  refine ⟨painted, ?_, represents, by simp [Ordered, join, RedBlack.Tree.toList], rfl,
    1, balanced_black .left _ rfl rfl⟩
  have same : painted.root = fresh := represents.root
  rw [rbtInsert, if_pos root, createNode, if_neg (by omega)]
  simp only [Option.bind_eq_bind, Option.bind_some]
  rw [show ({ key := key, value := garbage, color := .red, parent := 0, left := 0, right := 0 } :
    Node) = image .left .red ⟨fresh, key, garbage⟩ 0 0 0 from rfl, painting, Option.bind_some, same]

/-- `rbt_insert` with a fresh node returns, keeps a red-black search tree, and adds
at most the given key. -/
theorem rbt_insert_spec (valid : Valid store tree) (fresh garbage key : Nat)
    (unused : store.nodes fresh = none) (positive : 0 < fresh) (bound : fresh < addresses) :
    ∃ pointer after tree', rbtInsert store fresh garbage key = some (pointer, after) ∧
      Valid after tree' ∧ Inserts tree fresh garbage key pointer tree' := by
  obtain ⟨represents, ordered, black, wholeHeight, wholeBalanced⟩ := valid
  rcases tree_cases .left tree with rfl | ⟨color, left, root, right, rfl⟩
  · obtain ⟨after, result, afterValid⟩ :=
      rbt_insert_empty represents fresh garbage key positive bound
    exact ⟨fresh, after, _, result, afterValid, .inr ⟨by simp, rfl, [], [], rfl, rfl⟩⟩
  have atRoot : Represents store (plug [] (join .left color left root right)) := represents
  have rootIs : store.root = root.address := represents.root
  have notEmpty : store.root ≠ 0 := by
    rw [rootIs]
    exact Nat.ne_of_gt (represents_focus atRoot).positive
  have rooted : insertLoop addresses store store.root 0 .left key =
      insertLoop addresses store (pointer (join .left color left root right)) (above [])
        (headSide [] .left) key := by
    rw [represents.root]
    rfl
  rcases insert_loop_spec addresses key atRoot ordered ⟨by simp [before], by simp [after]⟩
      (represents_size represents) with
    ⟨entry, member, isKey, result⟩ | ⟨lower, same, hole, result⟩
  · refine ⟨entry.address, store, _, ?_, ⟨represents, ordered, black, wholeHeight, wholeBalanced⟩,
      .inl ⟨rfl, entry, member, isKey, rfl⟩⟩
    rw [rbtInsert, if_neg notEmpty, rooted, result]
    rfl
  · cases lower with
    | nil => cases same
    | cons frame rest =>
      rw [plug_nil] at same
      rw [← same] at represents ordered black wholeBalanced ⊢
      obtain ⟨created, attached, creates, attaches, attachedRepresents⟩ :=
        attach_spec represents fresh garbage key unused positive bound
      obtain ⟨height, accepts, leafBalanced, _⟩ := balanced_split _ _ _ wholeBalanced
      obtain rfl : height = 0 := leafBalanced
      obtain ⟨fixed, tree', fixes, fixedRepresents, entries, fixedBlack, fixedBalanced⟩ :=
        insert_fixup_spec addresses attachedRepresents accepts (balanced_red .left _ rfl rfl rfl rfl)
          (by
            intro last isLast
            rw [color_plug, isLast] at black
            exact black)
          (Nat.lt_of_le_of_lt (Nat.le_add_right _ _) (represents_depth represents))
      rw [to_list_plug] at entries
      refine ⟨fresh, fixed, tree', ?_, ⟨fixedRepresents, ordered_insert _ ordered hole entries,
        fixedBlack, fixedBalanced⟩, .inr ⟨?_, rfl, before (frame :: rest), after (frame :: rest),
        ?_, ?_⟩⟩
      · have framePositive : frame.entry.address ≠ 0 :=
          Nat.ne_of_gt (represents_focus (plug_cons frame rest .leaf ▸ represents)).positive
        rw [rbtInsert, if_neg notEmpty, rooted, result]
        simp only [Option.bind_eq_bind, Option.bind_some, above_cons, headSide, creates,
          if_pos framePositive, attaches]
        rw [show insertFixup addresses attached fresh = some fixed from fixes, Option.bind_some]
      · exact fun entry => hole.key_ne
      · rw [to_list_plug, to_list_leaf, append_nil]
      · rw [entries, append_assoc]
        rfl

end Balrog.RbtInsert
