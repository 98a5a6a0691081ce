import NoteVerse.MusicXml.NoteIdRuns

/-!
# The ids that backend and browser assign

Both go through the notes and forwards of a score-partwise document in the same
order (`prepare_eq`, `getElementSignature_eq`), and issue the same id for the
same id. For an element without one, the backend counts the parts, measures and
events before it, and the browser what has such a name in any case of letters;
so both agree exactly if nothing that stands before an element without an id has
such a name with a capital letter (`note_ids`).
-/

namespace NoteVerse.MusicXml

open Xml

/-! ## Score-partwise documents -/

/-- Each note and forward is a child of a measure that is a child of a part of the root. -/
def IsScorePartwise (root : Node) : Prop :=
  ∀ address element, root.at? address = some element → isEvent element = true →
    ∃ i j k part measure, address = [i, j, k] ∧
      root.at? [i] = some part ∧ part.hasTag "part" = true ∧
      root.at? [i, j] = some measure ∧ measure.hasTag "measure" = true

/-- No id of a note or forward has white space that is not ASCII. -/
def HasPlainIds (root : Node) : Prop :=
  ∀ address element, root.at? address = some element → isEvent element = true →
    ∀ id, element.getAttribute "id" = some id → IsPlain id

theorem isEvent_text (content : String) : isEvent (.text content) = false := rfl

variable {address : Address} {node : Node} {index partIndex : Nat} {signature : Address → String}
  {nodes : List Node}

theorem mem_eventAddresses {root : Node} : address ∈ eventAddresses root ↔
    ∃ element, root.at? address = some element ∧ isEvent element = true := by
  unfold eventAddresses
  rw [Node.mem_addressesOf isEvent_text]
  constructor
  · rintro ⟨_, element, rfl, hat, hevent⟩
    exact ⟨element, hat, hevent⟩
  · rintro ⟨element, hat, hevent⟩
    exact ⟨address, element, rfl, hat, hevent⟩

/-- Where the events are, it is enough to look. -/
theorem isScorePartwise_iff {root : Node} : IsScorePartwise root ↔
    ∀ address ∈ eventAddresses root, address.length = 3 ∧
      (root.at? (address.take 1)).any (Node.hasTag "part") = true ∧
      (root.at? (address.take 2)).any (Node.hasTag "measure") = true := by
  constructor
  · intro h address haddress
    obtain ⟨element, hat, hevent⟩ := mem_eventAddresses.mp haddress
    obtain ⟨i, j, k, part, measure, rfl, hpart, htag, hmeasure, htag'⟩ := h address element hat hevent
    refine ⟨rfl, ?_, ?_⟩
    · show (root.at? [i]).any (Node.hasTag "part") = true
      rw [hpart]
      exact htag
    · show (root.at? [i, j]).any (Node.hasTag "measure") = true
      rw [hmeasure]
      exact htag'
  · intro h address element hat hevent
    obtain ⟨hlength, hpart, hmeasure⟩ :=
      h address (mem_eventAddresses.mpr ⟨element, hat, hevent⟩)
    obtain ⟨i, j, k, rfl⟩ := List.length_eq_three.mp hlength
    obtain ⟨part, hpart, htag⟩ := (Option.any_eq_true _ _).mp hpart
    obtain ⟨measure, hmeasure, htag'⟩ := (Option.any_eq_true _ _).mp hmeasure
    exact ⟨i, j, k, part, measure, rfl, hpart, htag, hmeasure, htag'⟩

theorem hasPlainIds_iff {root : Node} : HasPlainIds root ↔
    ∀ address ∈ eventAddresses root,
      ∀ id ∈ (root.at? address).bind (·.getAttribute "id"), IsPlain id := by
  constructor
  · intro h address haddress id hid
    obtain ⟨element, hat, hevent⟩ := mem_eventAddresses.mp haddress
    have hid' : element.getAttribute "id" = some id := by
      rw [hat] at hid
      exact hid
    exact h address element hat hevent id hid'
  · intro h address element hat hevent id hid
    refine h address (mem_eventAddresses.mpr ⟨element, hat, hevent⟩)
      id ?_
    rw [hat]
    exact hid

instance (root : Node) : Decidable (IsScorePartwise root) := decidable_of_iff _ isScorePartwise_iff.symm

instance (root : Node) : Decidable (HasPlainIds root) := decidable_of_iff _ hasPlainIds_iff.symm

/-- An element has one of the names in lower case. -/
def named (names : List String) (node : Node) : Bool :=
  node.isElement && names.contains (localName node)

/-- The number of a child among those that satisfy `p`. -/
def ordinal (root : Node) (parent : Address) (p : Node → Bool) (index : Nat) : Nat :=
  ((root.at? parent).map fun node => (node.childNodes.take index).countP p).getD 0 + 1

/-- The signature of an event by what counts as a part, a measure and an event. -/
def signatureBy (root : Node) (part measure event : Node → Bool) : Address → String
  | [i, j, k] => signatureOf (ordinal root [] part i) (ordinal root [i] measure j)
      (((root.at? [i, j, k]).map Node.tagName).getD "") (ordinal root [i, j] event k)
  | _ => ""

variable {root : Node}

theorem tagName_of_isEvent (h : isEvent node = true) :
    node.isElement = true ∧ (node.tagName = "note" ∨ node.tagName = "forward") := by
  unfold isEvent at h
  rw [Bool.or_eq_true, Node.hasTag_iff, Node.hasTag_iff] at h
  exact ⟨h.elim And.left And.left, h.imp And.right And.right⟩

theorem at?_cons_some {child : Node} (h : node.childNodes[index]? = some child)
    (address : Address) : node.at? (index :: address) = child.at? address := by
  rw [Node.at?_cons, h]
  rfl

/-! ## The order of the backend -/

/-- An event has no events below it. -/
def Flat (nodes : List Node) : Prop :=
  ∀ node ∈ nodes, ∀ address,
    Node.addressesOf isEvent address node = if isEvent node then [address] else []

theorem prepareEvents_eq {measureIndex : Nat} {measure : Address} {selectableIndex : Nat}
    {run : IdRun} (hflat : Flat nodes)
    (hsignature : ∀ i node, nodes[i]? = some node → isEvent node = true →
      signature (measure ++ [index + i]) = signatureOf partIndex measureIndex node.tagName
        (selectableIndex + (nodes.take i).countP isEvent + 1)) :
    prepareEvents partIndex measureIndex measure index selectableIndex nodes run =
      loop Python.strip signature (Node.addressesIn isEvent measure index nodes) run := by
  induction nodes generalizing index selectableIndex run with
  | nil => rfl
  | cons node nodes ih =>
    have hrest : Flat nodes := fun node hnode => hflat node (List.mem_cons_of_mem _ hnode)
    unfold prepareEvents Node.addressesIn
    rw [hflat node List.mem_cons_self]
    by_cases hevent : isEvent node = true
    · rw [if_pos hevent, if_pos hevent]
      have hself := hsignature 0 node rfl hevent
      rw [Nat.add_zero, List.take_zero, List.countP_nil, Nat.add_zero] at hself
      refine (ih hrest fun i other hother hi => ?_).trans ?_
      · have hnext := hsignature (i + 1) other hother hi
        rw [List.take_succ_cons, List.countP_cons_of_pos hevent] at hnext
        rw [show index + 1 + i = index + (i + 1) by omega, hnext]
        congr 1
        omega
      · show _ = loop Python.strip signature _ (run.assign Python.strip (measure ++ [index])
          (signature (measure ++ [index])))
        rw [hself]
        rfl
    · rw [if_neg hevent, if_neg hevent, List.nil_append]
      refine ih hrest fun i other hother hi => ?_
      have hnext := hsignature (i + 1) other hother hi
      rw [List.take_succ_cons, List.countP_cons_of_neg hevent] at hnext
      rw [show index + 1 + i = index + (i + 1) by omega, hnext]

theorem loop_append (strip : String → String) (signature : Address → String)
    (elements others : List Address) (run : IdRun) :
    loop strip signature (elements ++ others) run =
      loop strip signature others (loop strip signature elements run) := List.foldl_append

/-- Some elements have events below them only as the children of theirs of a kind. -/
def Nested (kind : String) (inner : List Node → Prop) (nodes : List Node) : Prop :=
  ∀ node ∈ nodes,
    (node.hasTag kind = true → inner node.childNodes ∧ ∀ address,
      Node.addressesOf isEvent address node =
        Node.addressesIn isEvent address 0 node.childNodes) ∧
    (node.hasTag kind = false → ∀ address, Node.addressesOf isEvent address node = [])

theorem prepareMeasures_eq {part : Address} {measureIndex : Nat} {run : IdRun}
    (hnested : Nested "measure" Flat nodes)
    (hsignature : ∀ i node, nodes[i]? = some node → node.hasTag "measure" = true →
      ∀ k element, node.childNodes[k]? = some element → isEvent element = true →
        signature (part ++ [index + i] ++ [k]) = signatureOf partIndex
          (measureIndex + (nodes.take i).countP (Node.hasTag "measure")) element.tagName
          ((node.childNodes.take k).countP isEvent + 1)) :
    prepareMeasures partIndex part index measureIndex nodes run =
      loop Python.strip signature (Node.addressesIn isEvent part index nodes) run := by
  induction nodes generalizing index measureIndex run with
  | nil => rfl
  | cons node nodes ih =>
    have hrest : Nested "measure" Flat nodes :=
      fun node hnode => hnested node (List.mem_cons_of_mem _ hnode)
    obtain ⟨hmeasure, hother⟩ := hnested node List.mem_cons_self
    unfold prepareMeasures Node.addressesIn
    rw [loop_append]
    by_cases htag : node.hasTag "measure" = true
    · obtain ⟨hflat, haddresses⟩ := hmeasure htag
      rw [if_pos htag, haddresses]
      refine (ih hrest fun i other hi hother k element hk hevent => ?_).trans ?_
      · have hnext := hsignature (i + 1) other hi hother k element hk hevent
        rw [List.take_succ_cons, List.countP_cons_of_pos htag] at hnext
        rw [show index + 1 + i = index + (i + 1) by omega, hnext]
        congr 1
        omega
      · refine congrArg (loop Python.strip signature _) (prepareEvents_eq hflat ?_)
        intro k element hk hevent
        have hself := hsignature 0 node rfl htag k element hk hevent
        rw [Nat.add_zero, List.take_zero, List.countP_nil, Nat.add_zero] at hself
        rw [Nat.zero_add, hself, Nat.zero_add]
    · rw [if_neg htag, hother (Bool.eq_false_iff.mpr htag)]
      refine ih hrest fun i other hi hother k element hk hevent => ?_
      have hnext := hsignature (i + 1) other hi hother k element hk hevent
      rw [List.take_succ_cons, List.countP_cons_of_neg htag] at hnext
      rw [show index + 1 + i = index + (i + 1) by omega, hnext]

theorem prepareParts_eq {run : IdRun} (hnested : Nested "part" (Nested "measure" Flat) nodes)
    (hsignature : ∀ i node, nodes[i]? = some node → node.hasTag "part" = true →
      ∀ j measure, node.childNodes[j]? = some measure → measure.hasTag "measure" = true →
      ∀ k element, measure.childNodes[k]? = some element → isEvent element = true →
        signature [index + i, j, k] = signatureOf
          (partIndex + (nodes.take i).countP (Node.hasTag "part"))
          ((node.childNodes.take j).countP (Node.hasTag "measure") + 1) element.tagName
          ((measure.childNodes.take k).countP isEvent + 1)) :
    prepareParts index partIndex nodes run =
      loop Python.strip signature (Node.addressesIn isEvent [] index nodes) run := by
  induction nodes generalizing index partIndex run with
  | nil => rfl
  | cons node nodes ih =>
    have hrest : Nested "part" (Nested "measure" Flat) nodes :=
      fun node hnode => hnested node (List.mem_cons_of_mem _ hnode)
    obtain ⟨hpart, hother⟩ := hnested node List.mem_cons_self
    unfold prepareParts Node.addressesIn
    rw [loop_append]
    by_cases htag : node.hasTag "part" = true
    · obtain ⟨hmeasures, haddresses⟩ := hpart htag
      rw [if_pos htag, haddresses]
      refine (ih hrest fun i other hi hother j measure hj hmeasure k element hk hevent => ?_).trans ?_
      · have hnext := hsignature (i + 1) other hi hother j measure hj hmeasure k element hk hevent
        rw [List.take_succ_cons, List.countP_cons_of_pos htag] at hnext
        rw [show index + 1 + i = index + (i + 1) by omega, hnext]
        congr 1
        omega
      · refine congrArg (loop Python.strip signature _) (prepareMeasures_eq hmeasures ?_)
        intro j measure hj hmeasure k element hk hevent
        have hself := hsignature 0 node rfl htag j measure hj hmeasure k element hk hevent
        rw [Nat.add_zero, List.take_zero, List.countP_nil, Nat.add_zero] at hself
        show signature [index, 0 + j, k] = _
        rw [Nat.zero_add, hself, Nat.add_comm 1]
    · rw [if_neg htag, hother (Bool.eq_false_iff.mpr htag)]
      refine ih hrest fun i other hi hother j measure hj hmeasure k element hk hevent => ?_
      have hnext := hsignature (i + 1) other hi hother j measure hj hmeasure k element hk hevent
      rw [List.take_succ_cons, List.countP_cons_of_neg htag] at hnext
      rw [show index + 1 + i = index + (i + 1) by omega, hnext]

/-! ## What a score-partwise document is made of -/

theorem addressesOf_eq_nil (h : ∀ rest found, node.at? rest = some found → isEvent found = false)
    (address : Address) : Node.addressesOf isEvent address node = [] := by
  refine List.eq_nil_iff_forall_not_mem.mpr fun a ha => ?_
  obtain ⟨rest, found, -, hfound, hevent⟩ := (Node.mem_addressesOf isEvent_text).mp ha
  rw [h rest found hfound] at hevent
  cases hevent

theorem addressesIn_eq_nil
    (h : ∀ node ∈ nodes, ∀ rest found, node.at? rest = some found → isEvent found = false)
    (parent : Address) (index : Nat) : Node.addressesIn isEvent parent index nodes = [] := by
  refine List.eq_nil_iff_forall_not_mem.mpr fun a ha => ?_
  obtain ⟨i, child, rest, found, -, hchild, hfound, hevent⟩ :=
    (Node.mem_addressesIn isEvent_text).mp ha
  rw [h child (List.mem_of_getElem? hchild) rest found hfound] at hevent
  cases hevent

theorem addressesOf_eq (node : Node) (address : Address) : Node.addressesOf isEvent address node =
    (if isEvent node then [address] else []) ++
      Node.addressesIn isEvent address 0 node.childNodes := by
  cases node <;> rfl

namespace IsScorePartwise

/-- Where an event is. -/
theorem place {address : Address} {element : Node} (h : IsScorePartwise root)
    (hat : root.at? address = some element) (hevent : isEvent element = true) :
    ∃ i j k part measure, address = [i, j, k] ∧ root.childNodes[i]? = some part ∧
      part.hasTag "part" = true ∧ part.childNodes[j]? = some measure ∧
      measure.hasTag "measure" = true ∧ measure.childNodes[k]? = some element := by
  obtain ⟨i, j, k, part, measure, rfl, hpart, htag, hmeasure, htag'⟩ := h address element hat hevent
  have hpart' : root.childNodes[i]? = some part := by
    rw [Node.at?_cons] at hpart
    obtain ⟨child, hchild, hpart⟩ := Option.bind_eq_some_iff.mp hpart
    cases hpart
    exact hchild
  have hmeasure' : part.childNodes[j]? = some measure := by
    rw [at?_cons_some hpart', Node.at?_cons] at hmeasure
    obtain ⟨child, hchild, hmeasure⟩ := Option.bind_eq_some_iff.mp hmeasure
    cases hmeasure
    exact hchild
  refine ⟨i, j, k, part, measure, rfl, hpart', htag, hmeasure', htag', ?_⟩
  rw [at?_cons_some hpart', at?_cons_some hmeasure', Node.at?_cons] at hat
  obtain ⟨child, hchild, hat⟩ := Option.bind_eq_some_iff.mp hat
  cases hat
  exact hchild

theorem eventAddresses_eq (h : IsScorePartwise root) :
    eventAddresses root = Node.addressesIn isEvent [] 0 root.childNodes := by
  have hroot : isEvent root = false := by
    refine Bool.eq_false_iff.mpr fun hevent => ?_
    obtain ⟨_, _, _, _, _, haddress, -⟩ := h [] root rfl hevent
    cases haddress
  unfold eventAddresses
  rw [addressesOf_eq, hroot, if_neg Bool.false_ne_true, List.nil_append]

theorem nested (h : IsScorePartwise root) :
    Nested "part" (Nested "measure" Flat) root.childNodes := by
  intro part hpart
  obtain ⟨i, hi⟩ := List.mem_iff_getElem?.mp hpart
  have hbelow : ∀ rest found, part.at? rest = some found → isEvent found = true →
      ∃ j k, rest = [j, k] ∧ part.hasTag "part" = true ∧ ∃ measure,
        part.childNodes[j]? = some measure ∧ measure.hasTag "measure" = true := by
    intro rest found hfound hevent
    obtain ⟨i', j, k, part', measure, haddress, hpart', htag, hmeasure, htag', -⟩ :=
      @IsScorePartwise.place _ (i :: rest) _ h ((at?_cons_some hi rest).trans hfound) hevent
    cases haddress
    cases hi.symm.trans hpart'
    exact ⟨j, k, rfl, htag, measure, hmeasure, htag'⟩
  have hself : isEvent part = false := by
    refine Bool.eq_false_iff.mpr fun hevent => ?_
    obtain ⟨_, _, hrest, -⟩ := hbelow [] part rfl hevent
    cases hrest
  refine ⟨fun htag => ⟨?_, fun address => ?_⟩, fun htag address => ?_⟩
  · intro measure hmeasure
    obtain ⟨j, hj⟩ := List.mem_iff_getElem?.mp hmeasure
    have hin : ∀ rest found, measure.at? rest = some found → isEvent found = true →
        ∃ k, rest = [k] ∧ measure.hasTag "measure" = true := by
      intro rest found hfound hevent
      obtain ⟨j', k, hrest, -, measure', hmeasure', htag'⟩ :=
        hbelow (j :: rest) found ((at?_cons_some hj rest).trans hfound) hevent
      cases hrest
      cases hj.symm.trans hmeasure'
      exact ⟨k, rfl, htag'⟩
    have hmeasureSelf : isEvent measure = false := by
      refine Bool.eq_false_iff.mpr fun hevent => ?_
      obtain ⟨_, hrest, -⟩ := hin [] measure rfl hevent
      cases hrest
    refine ⟨fun _ => ⟨?_, fun address => ?_⟩, fun htag' address => ?_⟩
    · intro element helement address
      obtain ⟨k, hk⟩ := List.mem_iff_getElem?.mp helement
      rw [addressesOf_eq, addressesIn_eq_nil, List.append_nil]
      intro child hchild rest found hfound
      obtain ⟨l, hl⟩ := List.mem_iff_getElem?.mp hchild
      refine Bool.eq_false_iff.mpr fun hevent => ?_
      obtain ⟨_, hrest, -⟩ := hin (k :: l :: rest) found
        ((at?_cons_some hk _).trans ((at?_cons_some hl rest).trans hfound)) hevent
      cases hrest
    · rw [addressesOf_eq, hmeasureSelf, if_neg Bool.false_ne_true, List.nil_append]
    · refine addressesOf_eq_nil (fun rest found hfound => Bool.eq_false_iff.mpr fun hevent => ?_) _
      obtain ⟨_, -, htag''⟩ := hin rest found hfound hevent
      rw [htag'] at htag''
      cases htag''
  · rw [addressesOf_eq, hself, if_neg Bool.false_ne_true, List.nil_append]
  · refine addressesOf_eq_nil (fun rest found hfound => Bool.eq_false_iff.mpr fun hevent => ?_) _
    obtain ⟨_, _, -, htag', -⟩ := hbelow rest found hfound hevent
    rw [htag] at htag'
    cases htag'

end IsScorePartwise

/-! ## The two signatures -/

theorem ordinal_eq {parent : Address} (h : root.at? parent = some node) (p : Node → Bool)
    (index : Nat) : ordinal root parent p index = (node.childNodes.take index).countP p + 1 := by
  unfold ordinal
  rw [h]
  rfl

/-- The backend goes through the events in document order. -/
theorem prepare_eq (h : IsScorePartwise root) : prepareMusicxmlIdsForPractice root =
    loop Python.strip
      (signatureBy root (Node.hasTag "part") (Node.hasTag "measure") isEvent)
      (eventAddresses root) (.start root) := by
  unfold prepareMusicxmlIdsForPractice
  rw [h.eventAddresses_eq]
  refine prepareParts_eq h.nested fun i part hi hpart j measure hj hmeasure k element hk hevent => ?_
  have hat : root.at? [i, j, k] = some element := by
    rw [at?_cons_some hi, at?_cons_some hj, at?_cons_some hk]
    rfl
  have hpartAt : root.at? [i] = some part := at?_cons_some hi []
  have hmeasureAt : root.at? [i, j] = some measure := by
    rw [at?_cons_some hi, at?_cons_some hj]
    rfl
  rw [Nat.zero_add]
  show signatureOf (ordinal root [] _ i) (ordinal root [i] _ j)
    (((root.at? [i, j, k]).map Node.tagName).getD "") (ordinal root [i, j] _ k) = _
  rw [ordinal_eq Node.at?_nil, ordinal_eq hpartAt, ordinal_eq hmeasureAt, hat,
    Nat.add_comm 1]
  rfl

/-- The number of an element in a list of children. -/
theorem idxOf?_children {p : Node → Bool} {parent : Address} {nodes : List Node} {i start : Nat}
    {child : Node} (hi : nodes[i]? = some child) (hp : p child = true) :
    (((nodes.zipIdx start).filter fun child => p child.1).map
        fun child => parent ++ [child.2]).idxOf? (parent ++ [start + i]) =
      some ((nodes.take i).countP p) := by
  induction nodes generalizing i start with
  | nil => simp at hi
  | cons node nodes ih =>
    rw [List.zipIdx_cons]
    cases i with
    | zero =>
      cases hi
      rw [List.filter_cons_of_pos (p := fun child : Node × Nat => p child.1) hp, List.map_cons,
        List.idxOf?_cons, Nat.add_zero, if_pos (beq_self_eq_true _)]
      rfl
    | succ i =>
      have hnext := @ih i (start + 1) hi
      rw [show start + 1 + i = start + (i + 1) by omega] at hnext
      rw [List.take_succ_cons]
      by_cases hnode : p node = true
      · have hother : ¬(parent ++ [start] == parent ++ [start + (i + 1)]) = true := by
          simp
        rw [List.filter_cons_of_pos (p := fun child : Node × Nat => p child.1) hnode, List.map_cons,
          List.idxOf?_cons, if_neg hother, hnext, List.countP_cons_of_pos hnode]
        rfl
      · rw [List.filter_cons_of_neg (p := fun child : Node × Nat => p child.1) hnode, hnext,
          List.countP_cons_of_neg hnode]

theorem oneBasedOrdinal_eq {names : List String} {parent : Address} {node child : Node} {i : Nat}
    (hparent : root.at? parent = some node) (hi : node.childNodes[i]? = some child)
    (hchild : named names child = true) :
    oneBasedOrdinal (directChildrenByName root parent names) (parent ++ [i]) =
      ordinal root parent (named names) i := by
  have hidx := @idxOf?_children (named names) parent _ _ 0 _ hi hchild
  rw [Nat.zero_add] at hidx
  have hchildren : directChildrenByName root parent names =
      (node.childNodes.zipIdx.filter fun child => named names child.1).map
        fun child => parent ++ [child.2] := by
    unfold directChildrenByName
    rw [hparent]
    rfl
  unfold oneBasedOrdinal
  rw [hchildren, hidx, ordinal_eq hparent]

theorem named_of_hasTag {names : List String} {node : Node} {tag : String}
    (h : node.hasTag tag = true) (htag : names.contains tag.toLower = true) :
    named names node = true := by
  rw [Node.hasTag_iff] at h
  unfold named localName
  rw [h.1, h.2, htag]
  rfl

theorem named_of_isEvent {node : Node} (h : isEvent node = true) :
    named ["note", "forward"] node = true := by
  unfold isEvent at h
  rcases Bool.or_eq_true _ _ ▸ h with h | h
  · exact named_of_hasTag h (by decide +kernel)
  · exact named_of_hasTag h (by decide +kernel)

/-- The browser counts what has the name in any case of letters. -/
theorem getElementSignature_eq (h : IsScorePartwise root)
    (haddress : address ∈ eventAddresses root) : getElementSignature root address =
      signatureBy root (named ["part"]) (named ["measure"]) (named ["note", "forward"]) address := by
  obtain ⟨element, hat, hevent⟩ := mem_eventAddresses.mp haddress
  obtain ⟨i, j, k, part, measure, rfl, hi, hpart, hj, hmeasure, hk⟩ := h.place hat hevent
  have hpartAt : root.at? [i] = some part := at?_cons_some hi []
  have hmeasureAt : root.at? [i, j] = some measure := by
    rw [at?_cons_some hi, at?_cons_some hj]
    rfl
  obtain ⟨-, hname⟩ := tagName_of_isEvent hevent
  have hother : ∀ {node : Node} {tag other : String}, node.hasTag tag = true → tag ≠ other →
      node.hasTag other = false := by
    intro node tag other htag hne
    rw [Node.hasTag_iff] at htag
    refine Bool.eq_false_iff.mpr fun h => ?_
    exact hne (htag.2.symm.trans (Node.hasTag_iff.mp h).2)
  have helement : ∀ tag : String, tag ≠ "note" → tag ≠ "forward" → element.hasTag tag = false := by
    intro tag hnote hforward
    refine Bool.eq_false_iff.mpr fun h => ?_
    have htag := (Node.hasTag_iff.mp h).2
    exact hname.elim (fun h => hnote (htag.symm.trans h)) fun h => hforward (htag.symm.trans h)
  have hclosestMeasure : closest root "measure" [i, j, k] = some [i, j] := by
    unfold closest
    simp only [List.inits, List.map_cons, List.map_nil, List.reverse_cons, List.reverse_nil,
      List.nil_append, List.cons_append, List.find?_cons, hat, hmeasureAt, Option.any_some, hmeasure,
      helement "measure" (by decide) (by decide)]
  have hclosestPart : closest root "part" [i, j, k] = some [i] := by
    unfold closest
    simp only [List.inits, List.map_cons, List.map_nil, List.reverse_cons, List.reverse_nil,
      List.nil_append, List.cons_append, List.find?_cons, hat, hmeasureAt, hpartAt, Option.any_some,
      hpart, hother hmeasure (show "measure" ≠ "part" by decide),
      helement "part" (by decide) (by decide)]
  have hlocal : localName element = element.tagName := by
    unfold localName
    rcases hname with h | h <;> rw [h] <;> decide +kernel
  have hparts := @oneBasedOrdinal_eq _ ["part"] [] _ _ _ Node.at?_nil hi
    (named_of_hasTag hpart (by decide +kernel))
  have hmeasures := @oneBasedOrdinal_eq _ ["measure"] _ _ _ _ hpartAt hj
    (named_of_hasTag hmeasure (by decide +kernel))
  have hevents := @oneBasedOrdinal_eq _ ["note", "forward"] _ _ _ _ hmeasureAt hk
    (named_of_isEvent hevent)
  rw [List.nil_append] at hparts
  show getElementSignature root [i, j, k] = signatureOf (ordinal root [] _ i) (ordinal root [i] _ j)
    (((root.at? [i, j, k]).map Node.tagName).getD "") (ordinal root [i, j] _ k)
  unfold getElementSignature
  rw [hclosestMeasure, hclosestPart, hat]
  show signatureOf (oneBasedOrdinal (directChildrenByName root [] ["part"]) [i])
    (oneBasedOrdinal (directChildrenByName root [i] ["measure"]) ([i] ++ [j])) (localName element)
    (oneBasedOrdinal (directChildrenByName root [i, j] ["note", "forward"]) ([i, j] ++ [k])) = _
  rw [hparts, hmeasures, hevents, hlocal]
  rfl

/-! ## Agreement -/

/-- An element has one of the names but for the case of its letters. -/
def InOtherCase (names : List String) (node : Node) : Prop :=
  named names node = true ∧ ∀ name ∈ names, node.hasTag name = false

/-- Before an element without an id stands no part, measure or event in name but for the case
of its letters: among its siblings, those of its measure and those of its part. -/
def NamesInCase (root : Node) : Prop :=
  ∀ i j k part measure element, root.childNodes[i]? = some part → part.hasTag "part" = true →
    part.childNodes[j]? = some measure → measure.hasTag "measure" = true →
    measure.childNodes[k]? = some element → isEvent element = true →
    (element.getAttribute "id").getD "" = "" →
    (∀ other ∈ root.childNodes.take i, ¬InOtherCase ["part"] other) ∧
      (∀ other ∈ part.childNodes.take j, ¬InOtherCase ["measure"] other) ∧
        ∀ other ∈ measure.childNodes.take k, ¬InOtherCase ["note", "forward"] other

theorem countP_eq_iff {α : Type*} {p q : α → Bool} {xs : List α}
    (h : ∀ x ∈ xs, p x = true → q x = true) :
    xs.countP q = xs.countP p ↔ ∀ x ∈ xs, ¬(q x = true ∧ p x = false) := by
  induction xs with
  | nil => simp
  | cons x xs ih =>
    have hle := List.countP_mono_left (l := xs) fun x hx => h x (List.mem_cons_of_mem _ hx)
    rw [List.forall_mem_cons, ← ih fun x hx => h x (List.mem_cons_of_mem _ hx), List.countP_cons,
      List.countP_cons]
    have hx := h x List.mem_cons_self
    cases hp : p x <;> cases hq : q x <;> simp_all
    omega

theorem ordinal_eq_iff {parent : Address} {node : Node} {p q : Node → Bool} {index : Nat}
    (hnode : root.at? parent = some node) (h : ∀ other, p other = true → q other = true) :
    ordinal root parent q index = ordinal root parent p index ↔
      ∀ other ∈ node.childNodes.take index, ¬(q other = true ∧ p other = false) := by
  rw [ordinal_eq hnode, ordinal_eq hnode, Nat.add_right_cancel_iff]
  exact countP_eq_iff fun other _ => h other

theorem inOtherCase_singleton {name : String} :
    InOtherCase [name] node ↔ named [name] node = true ∧ node.hasTag name = false := by
  unfold InOtherCase
  simp

theorem inOtherCase_event : InOtherCase ["note", "forward"] node ↔
    named ["note", "forward"] node = true ∧ isEvent node = false := by
  unfold InOtherCase isEvent
  simp

/-- The signatures of an event agree exactly if nothing before it is counted by the browser only. -/
theorem signatureBy_eq_iff {i j k : Nat} {part measure : Node}
    (hi : root.childNodes[i]? = some part) (hj : part.childNodes[j]? = some measure) :
    signatureBy root (named ["part"]) (named ["measure"]) (named ["note", "forward"]) [i, j, k] =
        signatureBy root (Node.hasTag "part") (Node.hasTag "measure") isEvent [i, j, k] ↔
      (∀ other ∈ root.childNodes.take i, ¬InOtherCase ["part"] other) ∧
        (∀ other ∈ part.childNodes.take j, ¬InOtherCase ["measure"] other) ∧
          ∀ other ∈ measure.childNodes.take k, ¬InOtherCase ["note", "forward"] other := by
  have hpartAt : root.at? [i] = some part := at?_cons_some hi []
  have hmeasureAt : root.at? [i, j] = some measure := by
    rw [at?_cons_some hi, at?_cons_some hj]
    rfl
  have hparts := @ordinal_eq_iff root [] _ _ _ i Node.at?_nil
    fun other (h : Node.hasTag "part" other = true) =>
      @named_of_hasTag ["part"] _ _ h (by decide +kernel)
  have hmeasures := @ordinal_eq_iff _ _ _ _ _ j hpartAt
    fun other (h : Node.hasTag "measure" other = true) =>
      @named_of_hasTag ["measure"] _ _ h (by decide +kernel)
  have hevents := @ordinal_eq_iff _ _ _ _ _ k hmeasureAt fun other => @named_of_isEvent other
  simp only [← inOtherCase_singleton, ← inOtherCase_event] at hparts hmeasures hevents
  rw [← hparts, ← hmeasures, ← hevents]
  constructor
  · intro heq
    exact @signatureOf_cut _ _ _ _ _ _ _ "" "" (.inl rfl) (.inl rfl) (by
      rw [String.append_empty, String.append_empty]
      exact heq)
  · rintro ⟨hp, hm, he⟩
    show signatureOf _ _ _ _ = signatureOf _ _ _ _
    rw [hp, hm, he]

/-- An event is where `NamesInCase` looks for it. -/
theorem namesInCase_iff (h : IsScorePartwise root) : NamesInCase root ↔
    ∀ address ∈ eventAddresses root, ((IdRun.start root).ids address).getD "" = "" →
      signatureBy root (named ["part"]) (named ["measure"]) (named ["note", "forward"]) address =
        signatureBy root (Node.hasTag "part") (Node.hasTag "measure") isEvent address := by
  constructor
  · intro hnames address haddress hempty
    obtain ⟨element, hat, hevent⟩ := mem_eventAddresses.mp haddress
    obtain ⟨i, j, k, part, measure, rfl, hi, hpart, hj, hmeasure, hk⟩ := h.place hat hevent
    have hid : ((root.at? [i, j, k]).bind (·.getAttribute "id")).getD "" = "" := hempty
    rw [hat] at hid
    exact (signatureBy_eq_iff hi hj).mpr
      (hnames i j k part measure element hi hpart hj hmeasure hk hevent hid)
  · intro hsame i j k part measure element hi hpart hj hmeasure hk hevent hempty
    have hat : root.at? [i, j, k] = some element := by
      rw [at?_cons_some hi, at?_cons_some hj, at?_cons_some hk]
      rfl
    have haddress : [i, j, k] ∈ eventAddresses root :=
      mem_eventAddresses.mpr ⟨element, hat, hevent⟩
    refine (signatureBy_eq_iff hi hj).mp (hsame [i, j, k] haddress ?_)
    show ((root.at? [i, j, k]).bind (·.getAttribute "id")).getD "" = ""
    rw [hat]
    exact hempty

theorem signatureBy_isLegal (h : IsScorePartwise root) (part measure event : Node → Bool)
    (haddress : address ∈ eventAddresses root) :
    IsLegal (signatureBy root part measure event address) := by
  obtain ⟨element, hat, hevent⟩ := mem_eventAddresses.mp haddress
  obtain ⟨i, j, k, _, _, rfl, -⟩ := h.place hat hevent
  refine signatureOf_isLegal _ _ _ ?_
  rw [hat]
  show ∀ c ∈ element.tagName.toList, _
  rcases (tagName_of_isEvent hevent).2 with htag | htag <;> rw [htag] <;> decide

/-- What the two loops know of an event. -/
def signed (root : Node) (address : Address) : Signed where
  existing := ((IdRun.start root).ids address).getD ""
  signature :=
    signatureBy root (named ["part"]) (named ["measure"]) (named ["note", "forward"]) address
  signature' := signatureBy root (Node.hasTag "part") (Node.hasTag "measure") isEvent address

theorem signed_ok (h : IsScorePartwise root) (hplain : HasPlainIds root)
    (haddress : address ∈ eventAddresses root) : (signed root address).Ok Js.trim Python.strip := by
  refine ⟨fun hexisting => ?_, signatureBy_isLegal h _ _ _ haddress,
    signatureBy_isLegal h _ _ _ haddress, fun more more' hmore hmore' heq => ?_⟩
  · obtain ⟨element, hat, hevent⟩ := mem_eventAddresses.mp haddress
    have hids : (IdRun.start root).ids address = element.getAttribute "id" := by
      show (root.at? address).bind (·.getAttribute "id") = _
      rw [hat]
      rfl
    unfold signed at hexisting ⊢
    dsimp only at hexisting ⊢
    rw [hids] at hexisting ⊢
    cases hid : element.getAttribute "id" with
    | none => exact absurd (by rw [hid]; rfl) hexisting
    | some id => exact (sanitize_eq (hplain address element hat hevent id hid)).symm
  · obtain ⟨element, hat, hevent⟩ := mem_eventAddresses.mp haddress
    obtain ⟨i, j, k, part, measure, rfl, hi, -, hj, -⟩ := h.place hat hevent
    obtain ⟨hp, hm, he⟩ := signatureOf_cut hmore hmore' heq
    show signatureOf _ _ _ _ = signatureOf _ _ _ _
    rw [hp, hm, he]

theorem ensure_eq (h : IsScorePartwise root) : ensureGenericRenderMusicXmlIds root =
    loop Js.trim
      (signatureBy root (named ["part"]) (named ["measure"]) (named ["note", "forward"]))
      (eventAddresses root) (.start root) := by
  unfold ensureGenericRenderMusicXmlIds loop
  refine List.foldl_ext _ _ _ fun run address haddress => ?_
  rw [getElementSignature_eq h haddress]

/-- Backend and browser each give every note and forward an id, legal and its own; they give the
same ids exactly if no part, measure, note or forward in name, but for the case of its letters,
stands before a note or forward without an id. -/
theorem note_ids (root : Node) (h : IsScorePartwise root) (hplain : HasPlainIds root) :
    (∀ ids ∈ [(prepareMusicxmlIdsForPractice root).ids, (ensureGenericRenderMusicXmlIds root).ids],
      (∀ address ∈ eventAddresses root, ∃ id, ids address = some id ∧ IsLegal id) ∧
        ((eventAddresses root).map ids).Nodup) ∧
    ((∀ address ∈ eventAddresses root, (ensureGenericRenderMusicXmlIds root).ids address =
        (prepareMusicxmlIdsForPractice root).ids address) ↔ NamesInCase root) := by
  have hnodup : (eventAddresses root).Nodup := Node.nodup_addressesOf isEvent_text root []
  have hloop : ∀ (strip : String → String) (signature : Address → String),
      (∀ address ∈ eventAddresses root, ∃ id,
        (loop strip signature (eventAddresses root) (.start root)).ids address = some id ∧
          IsLegal id) ∧
        ((eventAddresses root).map
          (loop strip signature (eventAddresses root) (.start root)).ids).Nodup := by
    intro strip signature
    obtain ⟨hids, -⟩ := loop_ids strip signature hnodup (.start root)
    obtain ⟨hdistinct, hlegal⟩ := assigned_ok strip (IdRun.start root).usedIds
      ((eventAddresses root).map fun a => (((IdRun.start root).ids a).getD "", signature a))
    refine ⟨fun address haddress => ?_, ?_⟩
    · have hmem := List.mem_map_of_mem
        (f := (loop strip signature (eventAddresses root) (.start root)).ids) haddress
      rw [hids] at hmem
      obtain ⟨id, hid, heq⟩ := List.mem_map.mp hmem
      exact ⟨id, heq.symm, (hlegal id hid).1⟩
    · rw [hids]
      exact hdistinct.map (Option.some_injective _)
  rw [prepare_eq h, ensure_eq h, namesInCase_iff h]
  refine ⟨?_, ?_⟩
  · intro ids hids
    rcases List.mem_cons.mp hids with rfl | hids
    · exact hloop _ _
    · rw [List.mem_singleton.mp hids]
      exact hloop _ _
  · rw [← List.map_inj_left, (loop_ids _ _ hnodup _).1, (loop_ids _ _ hnodup _).1,
      (List.map_injective_iff.mpr (Option.some_injective _)).eq_iff]
    have hiff := @assigned_eq_iff _ _ keepsLegal_trim keepsLegal_strip
      ((eventAddresses root).map (signed root))
      (fun element helement => by
        obtain ⟨address, haddress, rfl⟩ := List.mem_map.mp helement
        exact signed_ok h hplain haddress) []
    rw [List.map_map, List.map_map, List.forall_mem_map] at hiff
    exact hiff

/-- A document of one measure. -/
def oneMeasure (elements : List Node) : Node :=
  .element "score-partwise" [] [.element "part" [("id", "P1")] [.element "measure" [] elements]]

/-- A note without an id, one with an id that is not legal, and a forward with the id that the
first note gets. -/
def threeEvents : Node := oneMeasure
  [.element "note" [] [], .element "note" [("id", "1 a")] [],
    .element "forward" [("id", "nv-p1-m1-note1")] []]

theorem note_ids_threeEvents :
    (∀ ids ∈ [(prepareMusicxmlIdsForPractice threeEvents).ids,
        (ensureGenericRenderMusicXmlIds threeEvents).ids],
      (∀ address ∈ eventAddresses threeEvents, ∃ id, ids address = some id ∧ IsLegal id) ∧
        ((eventAddresses threeEvents).map ids).Nodup) ∧
    ((∀ address ∈ eventAddresses threeEvents,
      (ensureGenericRenderMusicXmlIds threeEvents).ids address =
        (prepareMusicxmlIdsForPractice threeEvents).ids address) ↔ NamesInCase threeEvents) :=
  note_ids threeEvents (by decide) (by decide)

/-- The browser counts an element `Note`, which is no note for either, before the note. -/
theorem capital_note :
    IsScorePartwise (oneMeasure [.element "Note" [] [], .element "note" [] []]) ∧
    HasPlainIds (oneMeasure [.element "Note" [] [], .element "note" [] []]) ∧
    eventAddresses (oneMeasure [.element "Note" [] [], .element "note" [] []]) = [[0, 0, 1]] ∧
    (prepareMusicxmlIdsForPractice (oneMeasure [.element "Note" [] [],
      .element "note" [] []])).ids [0, 0, 1] = some "nv-p1-m1-note1" ∧
    (ensureGenericRenderMusicXmlIds (oneMeasure [.element "Note" [] [],
      .element "note" [] []])).ids [0, 0, 1] = some "nv-p1-m1-note2" := by
  decide +kernel

end NoteVerse.MusicXml
