import NoteVerse.Lib.Xml

/-!
# Addresses in an XML tree

A node is told apart from one that looks like it by its address: the numbers of
the child nodes on the way to it. `addressesOf` lists the addresses of the
elements that satisfy a predicate in document order, each once
(`nodup_addressesOf`), and no other (`mem_addressesOf`).
-/

namespace Xml

abbrev Address := List Nat

namespace Node

def at? (node : Node) : Address → Option Node
  | [] => some node
  | index :: address => (node.childNodes[index]?).bind (·.at? address)

mutual

/-- The addresses of a node and of those below it that satisfy `p`, if `address` is its own. -/
def addressesOf (p : Node → Bool) (address : Address) : Node → List Address
  | text _ => []
  | element tag attributes childNodes =>
    (if p (element tag attributes childNodes) then [address] else []) ++
      addressesIn p address 0 childNodes

def addressesIn (p : Node → Bool) (parent : Address) (index : Nat) : List Node → List Address
  | [] => []
  | node :: nodes =>
    addressesOf p (parent ++ [index]) node ++ addressesIn p parent (index + 1) nodes

end

variable {p : Node → Bool} {node : Node} {address : Address}

@[simp] theorem at?_nil : node.at? [] = some node := rfl

theorem at?_cons (index : Nat) : node.at? (index :: address) =
    (node.childNodes[index]?).bind (·.at? address) := rfl

mutual

theorem mem_addressesOf_aux (hp : ∀ content, p (text content) = false) (a : Address) :
    ∀ (node : Node) (address : Address), a ∈ addressesOf p address node ↔
      ∃ rest found, a = address ++ rest ∧ node.at? rest = some found ∧ p found = true
  | text content, address => by
    refine iff_of_false List.not_mem_nil ?_
    rintro ⟨rest, found, -, hfound, htrue⟩
    cases rest with
    | nil =>
      cases hfound
      rw [hp] at htrue
      cases htrue
    | cons index rest => simp [at?, childNodes] at hfound
  | element tag attributes children, address => by
    rw [addressesOf, List.mem_append, mem_addressesIn_aux hp a children address 0]
    constructor
    · rintro (hself | ⟨i, child, rest, found, rfl, hchild, hfound, htrue⟩)
      · by_cases h : p (element tag attributes children) = true
        · rw [if_pos h, List.mem_singleton] at hself
          exact ⟨[], _, by rw [hself, List.append_nil], rfl, h⟩
        · rw [if_neg h] at hself
          exact absurd hself List.not_mem_nil
      · refine ⟨i :: rest, found, by rw [Nat.zero_add], ?_, htrue⟩
        rw [at?_cons, childNodes_element, hchild]
        exact hfound
    · rintro ⟨rest, found, rfl, hfound, htrue⟩
      cases rest with
      | nil =>
        cases hfound
        left
        rw [if_pos htrue, List.append_nil]
        exact List.mem_singleton_self _
      | cons i rest =>
        rw [at?_cons, childNodes_element] at hfound
        obtain ⟨child, hchild, hfound⟩ := Option.bind_eq_some_iff.mp hfound
        exact .inr ⟨i, child, rest, found, by rw [Nat.zero_add], hchild, hfound, htrue⟩

theorem mem_addressesIn_aux (hp : ∀ content, p (text content) = false) (a : Address) :
    ∀ (nodes : List Node) (parent : Address) (index : Nat), a ∈ addressesIn p parent index nodes ↔
      ∃ i child rest found, a = parent ++ (index + i) :: rest ∧ nodes[i]? = some child ∧
        child.at? rest = some found ∧ p found = true
  | [], parent, index => by
    refine iff_of_false List.not_mem_nil ?_
    rintro ⟨i, child, rest, found, -, hchild, -⟩
    simp at hchild
  | node :: nodes, parent, index => by
    rw [addressesIn, List.mem_append, mem_addressesOf_aux hp a node, mem_addressesIn_aux hp a nodes]
    constructor
    · rintro (⟨rest, found, rfl, hfound, htrue⟩ | ⟨i, child, rest, found, rfl, hchild, hfound, htrue⟩)
      · exact ⟨0, node, rest, found, by simp, rfl, hfound, htrue⟩
      · exact ⟨i + 1, child, rest, found, by rw [Nat.add_right_comm, Nat.add_assoc], hchild, hfound,
          htrue⟩
    · rintro ⟨i, child, rest, found, rfl, hchild, hfound, htrue⟩
      cases i with
      | zero =>
        cases hchild
        exact .inl ⟨rest, found, by simp, hfound, htrue⟩
      | succ i =>
        exact .inr ⟨i, child, rest, found, by rw [Nat.add_right_comm, Nat.add_assoc], hchild, hfound,
          htrue⟩

end

theorem mem_addressesOf (hp : ∀ content, p (text content) = false) {a : Address} :
    a ∈ addressesOf p address node ↔
      ∃ rest found, a = address ++ rest ∧ node.at? rest = some found ∧ p found = true :=
  mem_addressesOf_aux hp a node address

theorem mem_addressesIn (hp : ∀ content, p (text content) = false) {a parent : Address}
    {nodes : List Node} {index : Nat} : a ∈ addressesIn p parent index nodes ↔
      ∃ i child rest found, a = parent ++ (index + i) :: rest ∧ nodes[i]? = some child ∧
        child.at? rest = some found ∧ p found = true :=
  mem_addressesIn_aux hp a nodes parent index

/-- Two child nodes have no address in common. -/
theorem index_of_cons_eq {parent rest rest' : Address} {i j : Nat}
    (h : parent ++ i :: rest = parent ++ j :: rest') : i = j :=
  (List.cons.inj (List.append_cancel_left h)).1

mutual

theorem nodup_addressesOf (hp : ∀ content, p (text content) = false) :
    ∀ (node : Node) (address : Address), (addressesOf p address node).Nodup
  | text content, address => List.nodup_nil
  | element tag attributes children, address => by
    rw [addressesOf, List.nodup_append]
    refine ⟨?_, nodup_addressesIn hp children address 0, ?_⟩
    · by_cases h : p (element tag attributes children) = true
      · rw [if_pos h]
        exact List.nodup_singleton _
      · rw [if_neg h]
        exact List.nodup_nil
    · intro a ha b hb hab
      subst hab
      obtain ⟨i, child, rest, found, hb, -⟩ := (mem_addressesIn hp).mp hb
      by_cases h : p (element tag attributes children) = true
      · rw [if_pos h, List.mem_singleton] at ha
        rw [ha] at hb
        exact absurd (List.self_eq_append_right.mp hb) (List.cons_ne_nil _ _)
      · rw [if_neg h] at ha
        exact absurd ha List.not_mem_nil

theorem nodup_addressesIn (hp : ∀ content, p (text content) = false) :
    ∀ (nodes : List Node) (parent : Address) (index : Nat),
      (addressesIn p parent index nodes).Nodup
  | [], parent, index => List.nodup_nil
  | node :: nodes, parent, index => by
    rw [addressesIn, List.nodup_append]
    refine ⟨nodup_addressesOf hp node _, nodup_addressesIn hp nodes parent (index + 1), ?_⟩
    intro a ha b hb hab
    subst hab
    obtain ⟨rest, found, ha, -⟩ := (mem_addressesOf hp).mp ha
    obtain ⟨i, child, rest', found', hb, -⟩ := (mem_addressesIn hp).mp hb
    rw [ha, List.append_assoc, List.singleton_append] at hb
    have := index_of_cons_eq hb
    omega

end

end Node

end Xml
