import NoteVerse.Lib.Computable

/-!
# XML trees

The part of the DOM that readers and writers of an XML document use: elements
with attributes and child nodes, the text of an element, the selectors
`:scope > a > b` (`path`) and `a > b` (`querySelectorAll`), and the change of
the first element that satisfies a predicate (`updateFirst`).

A text is represented by the tree that a parser reads from it. Breaking the
serialized text between adjacent tags adds text nodes to that tree, and
nothing else (`breakLines`).
-/

namespace Xml

inductive Node
  | text (content : String)
  | element (tagName : String) (attributes : List (String × String)) (childNodes : List Node)

namespace Node

def isElement : Node → Bool
  | text _ => false
  | element _ _ _ => true

/-- `#text` is the `nodeName` of a text. -/
def tagName : Node → String
  | text _ => "#text"
  | element tag _ _ => tag

def attributes : Node → List (String × String)
  | text _ => []
  | element _ attributes _ => attributes

def childNodes : Node → List Node
  | text _ => []
  | element _ _ childNodes => childNodes

def getAttribute (node : Node) (name : String) : Option String :=
  (node.attributes.find? (·.1 == name)).map Prod.snd

def hasTag (tag : String) : Node → Bool
  | text _ => false
  | element t _ _ => t == tag

/-- `createElement(tag)` with attributes set and children appended. -/
abbrev createElement := element

/-- `setAttribute` on the attributes of an element. -/
def setAttributeIn (name value : String) : List (String × String) → List (String × String)
  | [] => [(name, value)]
  | a :: as => if a.1 == name then (name, value) :: as else a :: setAttributeIn name value as

def setAttribute (name value : String) : Node → Node
  | text content => text content
  | element tag attributes childNodes =>
    element tag (setAttributeIn name value attributes) childNodes

/-- The child nodes that `element.textContent = content` leaves. -/
def textNodes (content : String) : List Node := if content = "" then [] else [text content]

/-- An element that holds a text only. -/
def leaf (tag content : String) : Node := element tag [] (textNodes content)

mutual

def textContent : Node → String
  | text content => content
  | element _ _ childNodes => textContents childNodes

def textContents : List Node → String
  | [] => ""
  | node :: nodes => node.textContent ++ textContents nodes

end

/-! ## Selectors -/

/-- `Array.from(node.querySelectorAll(':scope > tag'))`. -/
def childrenNamed (node : Node) (tag : String) : List Node := node.childNodes.filter (hasTag tag)

/-- `Array.from(node.querySelectorAll(':scope > a > b > …'))`. -/
def path (node : Node) : List String → List Node
  | [] => [node]
  | tag :: tags => (node.childrenNamed tag).flatMap (·.path tags)

/-- `node.querySelector(':scope > a > b > …')?.textContent`. -/
def pathText (node : Node) (tags : List String) : Option String :=
  (node.path tags).head?.map textContent

mutual

/-- An element and the elements below it in document order, each with the tags
of its ancestors, the nearest first; `tags` are those of the element. -/
def elementsOf (tags : List String) : Node → List (List String × Node)
  | text _ => []
  | element tag attributes childNodes =>
    (tags, element tag attributes childNodes) :: elementsIn (tag :: tags) childNodes

def elementsIn (tags : List String) : List Node → List (List String × Node)
  | [] => []
  | node :: nodes => elementsOf tags node ++ elementsIn tags nodes

end

/-- The elements that a selector `a > b > …` matches. -/
def matching (selector : List String) (found : List (List String × Node)) : List Node :=
  (found.filter fun e => selector.reverse.isPrefixOf (e.2.tagName :: e.1)).map Prod.snd

/-- `Array.from(node.querySelectorAll('a > b > …'))`. -/
def querySelectorAll (node : Node) (selector : List String) : List Node :=
  matching selector (elementsIn [node.tagName] node.childNodes)

/-- `node.querySelector('a > b > …')?.textContent`. -/
def queryText (node : Node) (selector : List String) : Option String :=
  (node.querySelectorAll selector).head?.map textContent

/-- `querySelectorAll` on the document whose root element is `root`. -/
def documentQuerySelectorAll (root : Node) (selector : List String) : List Node :=
  matching selector (elementsOf [] root)

/-! ## Changing an element -/

mutual

/-- The tree in which `f` was applied to the first element, in document order,
that satisfies `p`; `none` if there is none. -/
def updateFirst (p : Node → Bool) (f : Node → Node) : Node → Option Node
  | text _ => none
  | element tag attributes childNodes =>
    if p (element tag attributes childNodes) then some (f (element tag attributes childNodes))
    else (updateFirstOf p f childNodes).map (element tag attributes)

def updateFirstOf (p : Node → Bool) (f : Node → Node) : List Node → Option (List Node)
  | [] => none
  | node :: nodes =>
    match node.updateFirst p f with
    | some node' => some (node' :: nodes)
    | none => (updateFirstOf p f nodes).map (node :: ·)

end

/-- `node` before the first of the nodes that satisfies `p`, else at the end. -/
def insertBefore (p : Node → Bool) (node : Node) : List Node → List Node
  | [] => [node]
  | n :: nodes => if p n then node :: n :: nodes else n :: insertBefore p node nodes

/-- `node` after the first of the nodes that satisfies `p`, else at the end. -/
def insertAfter (p : Node → Bool) (node : Node) : List Node → List Node
  | [] => [node]
  | n :: nodes => if p n then n :: node :: nodes else n :: insertAfter p node nodes

/-- `f` on the first of the nodes with the tag, appended if there is none. -/
def updateNodeNamed (tag : String) (f : Node → Node) : List Node → List Node
  | [] => [f (element tag [] [])]
  | n :: nodes => if n.hasTag tag then f n :: nodes else n :: updateNodeNamed tag f nodes

def mapChildren (f : List Node → List Node) (node : Node) : Node :=
  element node.tagName node.attributes (f node.childNodes)

/-! ## Line breaks between adjacent tags -/

def newline : Node := text "\n"

mutual

/-- The tree of the serialized text after `replace(/></g, '>\n<')`. -/
def breakLines : Node → Node
  | text content => text content
  | element tag attributes [] => element tag attributes []
  | element tag attributes (node :: nodes) =>
    element tag attributes (breakLinesBetween true (node :: nodes))

/-- `afterTag`: whether a tag stands right before the nodes. -/
def breakLinesBetween (afterTag : Bool) : List Node → List Node
  | [] => if afterTag then [newline] else []
  | node :: nodes =>
    (if afterTag && node.isElement then [newline] else []) ++
      node.breakLines :: breakLinesBetween node.isElement nodes

end

/-! ## Reading an element -/

variable {tag tag' : String} {attributes : List (String × String)} {nodes : List Node}
  {node : Node}

@[simp] theorem tagName_element : (element tag attributes nodes).tagName = tag := rfl

@[simp] theorem attributes_element : (element tag attributes nodes).attributes = attributes := rfl

@[simp] theorem childNodes_element : (element tag attributes nodes).childNodes = nodes := rfl

@[simp] theorem isElement_text (content : String) : (text content).isElement = false := rfl

@[simp] theorem isElement_element : (element tag attributes nodes).isElement = true := rfl

@[simp] theorem hasTag_element : (element tag attributes nodes).hasTag tag' = (tag == tag') := rfl

theorem hasTag_iff : node.hasTag tag ↔ node.isElement ∧ node.tagName = tag := by
  cases node <;> simp [hasTag, isElement, tagName]

@[simp] theorem childrenNamed_element :
    (element tag attributes nodes).childrenNamed tag' = nodes.filter (hasTag tag') := rfl

@[simp] theorem hasTag_leaf (content : String) :
    (leaf tag content).hasTag tag' = (tag == tag') := rfl

theorem textContents_textNodes (content : String) : textContents (textNodes content) = content := by
  rw [textNodes]
  split_ifs with h
  · exact h.symm
  · simp [textContents, textContent]

@[simp] theorem textContent_leaf (content : String) : (leaf tag content).textContent = content :=
  textContents_textNodes content

theorem path_nil : node.path [] = [node] := rfl

theorem path_cons (tags : List String) :
    node.path (tag :: tags) = (node.childrenNamed tag).flatMap (·.path tags) := rfl

theorem path_singleton : node.path [tag] = node.childrenNamed tag := by
  simp [path]

/-- An attribute is read without the children. -/
theorem getAttribute_congr {node' : Node} (h : node.attributes = node'.attributes) (name : String) :
    node.getAttribute name = node'.getAttribute name := by
  rw [getAttribute, h, getAttribute]

/-! ## Line breaks are not elements -/

@[simp] theorem tagName_breakLines (node : Node) : node.breakLines.tagName = node.tagName := by
  rcases node with _ | ⟨_, _, _ | _⟩ <;> rfl

@[simp] theorem attributes_breakLines (node : Node) :
    node.breakLines.attributes = node.attributes := by
  rcases node with _ | ⟨_, _, _ | _⟩ <;> rfl

@[simp] theorem isElement_breakLines (node : Node) :
    node.breakLines.isElement = node.isElement := by
  rcases node with _ | ⟨_, _, _ | _⟩ <;> rfl

@[simp] theorem getAttribute_breakLines (node : Node) (name : String) :
    node.breakLines.getAttribute name = node.getAttribute name :=
  getAttribute_congr (attributes_breakLines node) name

@[simp] theorem hasTag_breakLines (node : Node) : node.breakLines.hasTag tag = node.hasTag tag := by
  rcases node with _ | ⟨_, _, _ | _⟩ <;> rfl

theorem filter_breakLinesBetween {p : Node → Bool} (hp : ∀ node, p node.breakLines = p node)
    (hnewline : p newline = false) (afterTag : Bool) (nodes : List Node) :
    (breakLinesBetween afterTag nodes).filter p = (nodes.filter p).map breakLines := by
  induction nodes generalizing afterTag with
  | nil => cases afterTag <;> simp [breakLinesBetween, hnewline]
  | cons node nodes ih =>
    rw [breakLinesBetween, List.filter_append, List.filter_cons, ih, List.filter_cons, hp]
    by_cases hbreak : (afterTag && node.isElement) = true
    · rw [if_pos hbreak, List.filter_cons, hnewline]
      split_ifs <;> simp_all
    · rw [if_neg hbreak]
      split_ifs <;> rfl

theorem filter_childNodes_breakLines {p : Node → Bool} (hp : ∀ node, p node.breakLines = p node)
    (hnewline : p newline = false) (node : Node) :
    node.breakLines.childNodes.filter p = (node.childNodes.filter p).map breakLines := by
  rcases node with _ | ⟨_, _, _ | _⟩
  · rfl
  · rfl
  · exact filter_breakLinesBetween hp hnewline _ _

@[simp] theorem childrenNamed_breakLines (node : Node) (tag : String) :
    node.breakLines.childrenNamed tag = (node.childrenNamed tag).map breakLines :=
  filter_childNodes_breakLines (fun node => hasTag_breakLines node) rfl node

theorem path_breakLines (node : Node) (tags : List String) :
    node.breakLines.path tags = (node.path tags).map breakLines := by
  induction tags generalizing node with
  | nil => rfl
  | cons tag tags ih =>
    rw [path, childrenNamed_breakLines, path, List.map_flatMap, List.flatMap_map]
    exact List.flatMap_congr fun child _ => ih child

/-- An element whose serialization has no adjacent tags. -/
@[simp] theorem breakLines_leaf (tag content : String) :
    (leaf tag content).breakLines = leaf tag content := by
  rw [leaf, textNodes]
  split_ifs <;> rfl

theorem elementsIn_childNodes_breakLines (tags : List String) (node : Node) :
    elementsIn tags node.breakLines.childNodes =
      elementsIn tags (node.childNodes.map breakLines) := by
  have hbetween : ∀ (nodes : List Node) (afterTag : Bool),
      elementsIn tags (breakLinesBetween afterTag nodes) = elementsIn tags (nodes.map breakLines) := by
    intro nodes
    induction nodes with
    | nil => intro afterTag; cases afterTag <;> rfl
    | cons n nodes ih =>
      intro afterTag
      rw [breakLinesBetween]
      split_ifs
      · show elementsOf tags newline ++ (elementsOf tags n.breakLines ++ _) = _
        rw [ih]
        rfl
      · show elementsOf tags n.breakLines ++ _ = _
        rw [ih]
        rfl
  rcases node with _ | ⟨_, _, _ | _⟩
  · rfl
  · rfl
  · exact hbetween _ true

/-! ## Properties of all elements of a tree -/

mutual

/-- `p` of an element and of all elements below it. -/
def all (p : Node → Bool) : Node → Bool
  | text _ => true
  | element tag attributes childNodes => p (element tag attributes childNodes) && allIn p childNodes

def allIn (p : Node → Bool) : List Node → Bool
  | [] => true
  | node :: nodes => node.all p && allIn p nodes

end

theorem allIn_iff {p : Node → Bool} : allIn p nodes ↔ ∀ node ∈ nodes, node.all p := by
  induction nodes with
  | nil => simp [allIn]
  | cons node nodes ih => simp [allIn, ih]

theorem all_element {p : Node → Bool} :
    (element tag attributes nodes).all p ↔
      p (element tag attributes nodes) ∧ ∀ node ∈ nodes, node.all p := by
  rw [all, Bool.and_eq_true, allIn_iff]

mutual

theorem all_mono {p q : Node → Bool} (hpq : ∀ node, p node → q node) :
    ∀ {node : Node}, node.all p → node.all q
  | text _, _ => rfl
  | element tag attributes nodes, h => by
    rw [all, Bool.and_eq_true] at h ⊢
    exact ⟨hpq _ h.1, allIn_mono hpq h.2⟩

theorem allIn_mono {p q : Node → Bool} (hpq : ∀ node, p node → q node) :
    ∀ {nodes : List Node}, allIn p nodes → allIn q nodes
  | [], _ => rfl
  | node :: nodes, h => by
    rw [allIn, Bool.and_eq_true] at h ⊢
    exact ⟨all_mono hpq h.1, allIn_mono hpq h.2⟩

end

@[simp] theorem all_text {p : Node → Bool} (content : String) : (text content).all p = true := rfl

theorem all_self {p : Node → Bool} (he : node.isElement) (h : node.all p) : p node := by
  rcases node with _ | ⟨tag, attributes, nodes⟩
  · exact absurd he (by simp)
  · exact (all_element.mp h).1

theorem all_of_mem_childNodes {p : Node → Bool} {child : Node} (h : node.all p)
    (hc : child ∈ node.childNodes) : child.all p := by
  rcases node with _ | ⟨tag, attributes, nodes⟩
  · exact absurd hc (by simp [childNodes])
  · exact (all_element.mp h).2 child hc

theorem mem_textNodes {content : String} (h : node ∈ textNodes content) : node = text content := by
  rw [textNodes] at h
  split_ifs at h
  · exact absurd h (by simp)
  · exact List.mem_singleton.mp h

theorem all_leaf {p : Node → Bool} {content : String} (h : p (leaf tag content)) :
    (leaf tag content).all p :=
  all_element.mpr ⟨h, fun _ hnode => mem_textNodes hnode ▸ all_text content⟩

mutual

theorem all_breakLines {p : Node → Bool} (hp : ∀ node, p node.breakLines = p node) :
    ∀ node : Node, node.breakLines.all p = node.all p
  | text _ => rfl
  | element _ _ [] => rfl
  | element tag attributes (node :: nodes) => by
    have hself := hp (element tag attributes (node :: nodes))
    have hnodes := allIn_breakLinesBetween hp true (node :: nodes)
    rw [breakLines] at hself ⊢
    rw [all, all, hself, hnodes]

theorem allIn_breakLinesBetween {p : Node → Bool} (hp : ∀ node, p node.breakLines = p node) :
    ∀ (afterTag : Bool) (nodes : List Node),
      allIn p (breakLinesBetween afterTag nodes) = allIn p nodes
  | afterTag, [] => by cases afterTag <;> rfl
  | afterTag, node :: nodes => by
    have hnode := all_breakLines hp node
    have hnodes := allIn_breakLinesBetween hp node.isElement nodes
    rw [breakLinesBetween, allIn]
    split_ifs
    · show (newline.all p && (node.breakLines.all p && _)) = _
      rw [hnode, hnodes]
      rfl
    · show (node.breakLines.all p && _) = _
      rw [hnode, hnodes]

end

/-! ## Selectors on the whole document -/

mutual

theorem mem_elementsOf_all {p : Node → Bool} :
    ∀ {node : Node} {tags : List String} {e : List String × Node},
      node.all p → e ∈ elementsOf tags node → p e.2
  | text _, _, _, _, he => absurd he (by simp [elementsOf])
  | element tag attributes nodes, tags, e, h, he => by
    rw [all, Bool.and_eq_true] at h
    rw [elementsOf, List.mem_cons] at he
    rcases he with rfl | he
    · exact h.1
    · exact mem_elementsIn_allIn h.2 he

theorem mem_elementsIn_allIn {p : Node → Bool} :
    ∀ {nodes : List Node} {tags : List String} {e : List String × Node},
      allIn p nodes → e ∈ elementsIn tags nodes → p e.2
  | [], _, _, _, he => absurd he (by simp [elementsIn])
  | node :: nodes, tags, e, h, he => by
    rw [allIn, Bool.and_eq_true] at h
    rw [elementsIn, List.mem_append] at he
    rcases he with he | he
    · exact mem_elementsOf_all h.1 he
    · exact mem_elementsIn_allIn h.2 he

end

theorem elementsIn_eq_flatMap (tags : List String) (nodes : List Node) :
    elementsIn tags nodes = nodes.flatMap (elementsOf tags) := by
  induction nodes with
  | nil => rfl
  | cons node nodes ih => rw [elementsIn, ih, List.flatMap_cons]

@[simp] theorem matching_nil (selector : List String) : matching selector [] = [] := rfl

theorem matching_append (selector : List String) (xs ys : List (List String × Node)) :
    matching selector (xs ++ ys) = matching selector xs ++ matching selector ys := by
  simp [matching]

theorem matching_flatMap {α : Type} (selector : List String) (xs : List α)
    (f : α → List (List String × Node)) :
    matching selector (xs.flatMap f) = xs.flatMap fun x => matching selector (f x) := by
  induction xs with
  | nil => rfl
  | cons x xs ih => rw [List.flatMap_cons, matching_append, ih, List.flatMap_cons]

/-- No element has the tag that a selector ends in. -/
theorem matching_eq_nil {selector : List String} {found : List (List String × Node)}
    (h : ∀ e ∈ found, e.2.tagName ≠ tag) : matching (selector ++ [tag]) found = [] := by
  rw [matching, List.map_eq_nil_iff, List.filter_eq_nil_iff]
  intro e he hmatch
  simp only [List.reverse_append, List.reverse_cons, List.reverse_nil, List.nil_append,
    List.singleton_append, List.isPrefixOf, Bool.and_eq_true, beq_iff_eq] at hmatch
  exact h e he hmatch.1.symm

/-! ## Changing the first element that satisfies a predicate -/

/-- `f` on the first element of the list that satisfies `p`. -/
def replaceFirst {α : Type} (p : α → Bool) (f : α → α) : List α → Option (List α)
  | [] => none
  | a :: as => if p a then some (f a :: as) else (replaceFirst p f as).map (a :: ·)

mutual

theorem updateFirst_eq_none {p : Node → Bool} {f : Node → Node} :
    ∀ {node : Node}, node.all (fun n => !p n) → node.updateFirst p f = none
  | text _, _ => rfl
  | element tag attributes nodes, h => by
    rw [all, Bool.and_eq_true, Bool.not_eq_true'] at h
    rw [updateFirst, h.1, if_neg (by decide), updateFirstOf_eq_none h.2]
    rfl

theorem updateFirstOf_eq_none {p : Node → Bool} {f : Node → Node} :
    ∀ {nodes : List Node}, allIn (fun n => !p n) nodes → updateFirstOf p f nodes = none
  | [], _ => rfl
  | node :: nodes, h => by
    rw [allIn, Bool.and_eq_true] at h
    rw [updateFirstOf, updateFirst_eq_none h.1, updateFirstOf_eq_none h.2]
    rfl

end

/-- Two elements that differ at most in their children, which `R` relates. -/
structure SameShape (R : Node → Node → Prop) (node node' : Node) : Prop where
  isElement : node'.isElement = node.isElement
  tagName : node'.tagName = node.tagName
  attributes : node'.attributes = node.attributes
  childNodes : List.Forall₂ R node.childNodes node'.childNodes

theorem SameShape.refl {R : Node → Node → Prop} (hR : ∀ node, R node node) (node : Node) :
    SameShape R node node :=
  ⟨rfl, rfl, rfl, List.forall₂_same.mpr fun child _ => hR child⟩

theorem SameShape.mono {R S : Node → Node → Prop} (hRS : ∀ a b, R a b → S a b) {node node' : Node}
    (h : SameShape R node node') : SameShape S node node' :=
  ⟨h.isElement, h.tagName, h.attributes, h.childNodes.imp hRS⟩

theorem SameShape.trans {R : Node → Node → Prop} (hR : ∀ a b c, R a b → R b c → R a c)
    {a b c : Node} (hab : SameShape R a b) (hbc : SameShape R b c) : SameShape R a c where
  isElement := hbc.isElement.trans hab.isElement
  tagName := hbc.tagName.trans hab.tagName
  attributes := hbc.attributes.trans hab.attributes
  childNodes := by
    have h : ∀ {xs ys zs : List Node}, List.Forall₂ R xs ys → List.Forall₂ R ys zs →
        List.Forall₂ R xs zs := by
      intro xs ys zs hxy
      induction hxy generalizing zs with
      | nil => intro hyz; cases hyz; exact .nil
      | cons hx _ ih =>
        intro hyz
        rcases hyz with _ | ⟨hy, hyz⟩
        exact .cons (hR _ _ _ hx hy) (ih hyz)
    exact h hab.childNodes hbc.childNodes

theorem SameShape.hasTag {R : Node → Node → Prop} {node node' : Node}
    (h : SameShape R node node') (tag : String) : node'.hasTag tag = node.hasTag tag := by
  rw [Bool.eq_iff_iff, hasTag_iff, hasTag_iff, h.isElement, h.tagName]

/-- Elements of the same shape with equal children are equal. -/
theorem SameShape.eq {R : Node → Node → Prop} {node node' : Node} (he : node.isElement)
    (h : SameShape R node node')
    (hR : ∀ child ∈ node.childNodes, ∀ child', R child child' → child' = child) :
    node' = node := by
  have heq : ∀ {xs ys : List Node}, (∀ x ∈ xs, ∀ y, R x y → y = x) → List.Forall₂ R xs ys →
      ys = xs := by
    intro xs ys hxs hxy
    induction hxy with
    | nil => rfl
    | cons hx _ ih =>
      rw [hxs _ (by simp) _ hx, ih fun x hx' => hxs x (List.mem_cons_of_mem _ hx')]
  rcases node with _ | ⟨tag, attributes, nodes⟩
  · exact absurd he (by simp)
  · rcases node' with _ | ⟨tag', attributes', nodes'⟩
    · exact absurd h.isElement (by simp)
    · obtain rfl : tag' = tag := h.tagName
      obtain rfl : attributes' = attributes := h.attributes
      have hnodes : nodes' = nodes := heq hR h.childNodes
      rw [hnodes]

theorem SameShape.exists_of_mem {R : Node → Node → Prop} {node node' child' : Node}
    (h : SameShape R node node') (hc : child' ∈ node'.childNodes) :
    ∃ child ∈ node.childNodes, R child child' := by
  have hmem : ∀ {xs ys : List Node}, List.Forall₂ R xs ys → child' ∈ ys → ∃ x ∈ xs, R x child' := by
    intro xs ys hxy
    induction hxy with
    | nil => simp
    | @cons x y xs ys hxy _ ih =>
      intro hy
      rcases List.mem_cons.mp hy with rfl | hy
      · exact ⟨x, by simp, hxy⟩
      · obtain ⟨z, hz, hR⟩ := ih hy
        exact ⟨z, List.mem_cons_of_mem _ hz, hR⟩
  exact hmem h.childNodes hc

theorem updateFirstOf_forall₂ {R : Node → Node → Prop} {p : Node → Bool} {f : Node → Node}
    (hR : ∀ node, R node node) {nodes' : List Node}
    (hstep : ∀ node ∈ nodes, ∀ node', node.updateFirst p f = some node' → R node node')
    (h : updateFirstOf p f nodes = some nodes') : List.Forall₂ R nodes nodes' := by
  induction nodes generalizing nodes' with
  | nil => exact absurd h (by simp [updateFirstOf])
  | cons node nodes ih =>
    rw [updateFirstOf] at h
    cases hnode : node.updateFirst p f with
    | some node' =>
      rw [hnode] at h
      obtain rfl := Option.some.inj h
      exact .cons (hstep node (by simp) node' hnode) (List.forall₂_same.mpr fun n _ => hR n)
    | none =>
      rw [hnode] at h
      obtain ⟨ns, hns, rfl⟩ := Option.map_eq_some_iff.mp h
      exact .cons (hR node) (ih (fun n hn => hstep n (List.mem_cons_of_mem _ hn)) hns)

/-- A change below an element keeps its shape. -/
theorem updateFirst_sameShape {R : Node → Node → Prop} {p : Node → Bool} {f : Node → Node}
    (hR : ∀ node, R node node) {node' : Node} (hp : p node = false)
    (hstep : ∀ child ∈ node.childNodes, ∀ child', child.updateFirst p f = some child' →
      R child child')
    (h : node.updateFirst p f = some node') : SameShape R node node' := by
  rcases node with _ | ⟨tag, attributes, nodes⟩
  · exact absurd h (by simp [updateFirst])
  · rw [updateFirst, hp, if_neg (by decide)] at h
    obtain ⟨nodes', hnodes, rfl⟩ := Option.map_eq_some_iff.mp h
    exact ⟨rfl, rfl, rfl, updateFirstOf_forall₂ hR hstep hnodes⟩

/-! ## Elements at a depth -/

/-- The nodes at a depth below an element: its child nodes at depth 0. -/
def atDepth : Nat → Node → List Node
  | 0, node => node.childNodes
  | depth + 1, node => node.childNodes.flatMap (atDepth depth)

/-- All elements that satisfy `p` stand at the depth. -/
def OnlyAt (p : Node → Bool) : Nat → Node → Prop
  | 0, node => p node = false ∧
      ∀ item ∈ node.childNodes, ∀ child ∈ item.childNodes, child.all (fun n => !p n)
  | depth + 1, node => p node = false ∧ ∀ child ∈ node.childNodes, OnlyAt p depth child

theorem replaceFirst_append {α : Type} {p : α → Bool} {f : α → α} (xs ys : List α) :
    replaceFirst p f (xs ++ ys) =
      match replaceFirst p f xs with
      | some xs' => some (xs' ++ ys)
      | none => (replaceFirst p f ys).map (xs ++ ·) := by
  induction xs with
  | nil => simp [replaceFirst]
  | cons x xs ih =>
    rw [List.cons_append, replaceFirst, replaceFirst, ih]
    by_cases hx : p x
    · simp [hx]
    · rw [if_neg hx, if_neg hx]
      rcases replaceFirst p f xs with _ | xs'
      · rcases replaceFirst p f ys with _ | ys' <;> rfl
      · rfl

/-- The list around the element that `replaceFirst` changes. -/
theorem replaceFirst_cases {α : Type} (p : α → Bool) (f : α → α) (xs : List α) :
    (∃ pre a post, xs = pre ++ a :: post ∧ (∀ b ∈ pre, p b = false) ∧ p a ∧
        replaceFirst p f xs = some (pre ++ f a :: post)) ∨
      ((∀ b ∈ xs, p b = false) ∧ replaceFirst p f xs = none) := by
  induction xs with
  | nil => exact .inr ⟨by simp, rfl⟩
  | cons x xs ih =>
    by_cases hx : p x
    · exact .inl ⟨[], x, xs, rfl, by simp, hx, by simp [replaceFirst, hx]⟩
    · rcases ih with ⟨pre, a, post, rfl, hpre, ha, h⟩ | ⟨hall, h⟩
      · refine .inl ⟨x :: pre, a, post, rfl, ?_, ha, ?_⟩
        · exact List.forall_mem_cons.mpr ⟨Bool.eq_false_iff.mpr hx, hpre⟩
        · rw [replaceFirst, if_neg hx, h]
          rfl
      · refine .inr ⟨List.forall_mem_cons.mpr ⟨Bool.eq_false_iff.mpr hx, hall⟩, ?_⟩
        rw [replaceFirst, if_neg hx, h]
        rfl

section UpdateAtDepth

variable {p q : Node → Bool} (f : Node → Node)

theorem updateFirst_item (hq : ∀ n, p n → q n) (htext : ∀ content, p (text content) = false)
    {item : Node} (h : ∀ child ∈ item.childNodes, child.all (fun n => !q n)) :
    item.updateFirst p f = if p item then some (f item) else none := by
  rcases item with content | ⟨tag, attributes, nodes⟩
  · rw [htext, updateFirst, if_neg (by decide)]
  · have hnone : updateFirstOf p f nodes = none := by
      refine updateFirstOf_eq_none (allIn_iff.mpr fun child hc => ?_)
      refine all_mono (fun n hn => ?_) (h child hc)
      rw [Bool.not_eq_true'] at hn ⊢
      exact Bool.eq_false_iff.mpr fun hp => absurd (hq n hp) (by rw [hn]; decide)
    rw [updateFirst, hnone]
    rfl

theorem updateFirstOf_items (hq : ∀ n, p n → q n) (htext : ∀ content, p (text content) = false)
    {items : List Node}
    (h : ∀ item ∈ items, ∀ child ∈ item.childNodes, child.all (fun n => !q n)) :
    updateFirstOf p f items = replaceFirst p f items := by
  induction items with
  | nil => rfl
  | cons item items ih =>
    rw [updateFirstOf, updateFirst_item f hq htext (h item (by simp)), replaceFirst,
      ih fun i hi => h i (List.mem_cons_of_mem _ hi)]
    by_cases hp : p item
    · rw [if_pos hp, if_pos hp]
    · rw [if_neg hp, if_neg hp]

/-- Where all the candidates stand at one depth, a change of the first is the
change of the first at that depth. -/
theorem updateFirst_atDepth (hq : ∀ n, p n → q n) (htext : ∀ content, p (text content) = false)
    {depth : Nat} (h : OnlyAt q depth node) :
    (node.updateFirst p f).map (atDepth depth) = replaceFirst p f (atDepth depth node) := by
  induction depth generalizing node with
  | zero =>
    have hp : p node = false := Bool.eq_false_iff.mpr fun hp => by
      have := hq _ hp
      rw [h.1] at this
      exact absurd this (by decide)
    rcases node with content | ⟨tag, attributes, nodes⟩
    · rfl
    · have hitems := updateFirstOf_items f hq htext h.2
      rw [childNodes_element] at hitems
      rw [updateFirst, hp, if_neg (by decide), hitems, Option.map_map, atDepth]
      exact Option.map_id'
  | succ depth ih =>
    have hp : p node = false := Bool.eq_false_iff.mpr fun hp => by
      have := hq _ hp
      rw [h.1] at this
      exact absurd this (by decide)
    rcases node with content | ⟨tag, attributes, nodes⟩
    · rfl
    · have hnodes : ∀ ns : List Node, (∀ n ∈ ns, OnlyAt q depth n) →
          (updateFirstOf p f ns).map (List.flatMap (atDepth depth)) =
            replaceFirst p f (ns.flatMap (atDepth depth)) := by
        intro ns hns
        induction ns with
        | nil => rfl
        | cons n ns ihns =>
          have hn := ih (hns n (by simp))
          have hrest := ihns fun m hm => hns m (List.mem_cons_of_mem _ hm)
          rw [updateFirstOf, List.flatMap_cons, replaceFirst_append, ← hn]
          rcases n.updateFirst p f with _ | n'
          · simp only [Option.map_none, Option.map_map, ← hrest]
            rfl
          · rfl
      have hall := hnodes nodes h.2
      rw [updateFirst, hp, if_neg (by decide), Option.map_map, atDepth, childNodes_element, ← hall]
      rfl

end UpdateAtDepth

end Node

end Xml
