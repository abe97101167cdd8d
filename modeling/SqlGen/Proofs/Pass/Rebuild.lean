import SqlGen.Proofs.Equality.Memory
import SqlGen.Proofs.Pass.Visit

/-!
# A node with other children

A node has fields of its own, and children arranged in slots.  `Expr.own` is the former and
`Expr.arranged` the latter, and the two determine the node (`Expr.eq_of_own_eq`).

To update a node is to leave the former and replace the latter.  The children and the parts that
are offered stand in one memory, where one node may fill several slots and equal nodes may stand
apart.  The very same node results only if every slot gets the node at the address of its child
(`holds_iff`), and a call without an argument list differs from one with an empty list.

A visit of the children is an update with the answers, each child being handed out once in the
documented order.  `Expr.visitChildren_rebuilds` says both.
-/

namespace SqlGen

namespace Expr

/-! ## Own fields and children -/

/-- The children of a node in the documented order. -/
def inOrder : Expr → List Expr
  | .column .. | .constant .. | .parameter .. | .fragment _ | .table .. | .niladic _ => []
  | .call _ args => args
  | .binary _ l r _ => [l, r]
  | .unary _ e _ | .projection e _ | .ordering e _ | .collate e _ => [e]
  | .join _ t p => [t, p]
  | .crossJoin t => [t]
  | .select q =>
      q.projection ++ q.tables ++ q.predicate.toList ++ q.orderings ++ q.limit.toList ++
        q.offset.toList
  | .setOperation _ _ source₁ source₂ _ => [.select source₁, .select source₂]

theorem inOrder_eq_children (e : Expr) : e.inOrder = e.children := by
  cases e <;> rfl

/-- A node without its children.  What is left of a call is its function, whether it has an
argument list or not. -/
def own : Expr → Expr
  | .call f _ | .niladic f => .niladic f
  | .select q => .select { tables := [], distinct := q.distinct }
  | e => e.head

/-- The children of a node in their slots, with the shape of the slots. -/
def arranged (e : Expr) : (s : Shape) × Slots Expr s := ⟨e.shape, e.slots⟩

/-- Own fields and children make a node. -/
theorem eq_of_own_eq {x y : Expr} (own : x.own = y.own) (arranged : x.arranged = y.arranged) :
    x = y := by
  cases x with
  | select q =>
      cases y with
      | select q' =>
          have distinct : q.distinct = q'.distinct := (Select.mk.inj (Expr.select.inj own)).2
          obtain ⟨-, slots⟩ := Sigma.mk.inj arranged
          have clauses : q.toClauses = q'.toClauses := Slots.select.inj (eq_of_heq slots)
          obtain ⟨c, d⟩ := q
          obtain rfl : c = q'.toClauses := clauses
          obtain rfl : d = q'.distinct := distinct
          rfl
      | _ => cases own
  | _ => cases y <;> simp_all [Expr.own, head, Expr.arranged, slots]

/-- The places of the children of a node, with the shape of the slots. -/
def places (e : Expr) : (s : Shape) × Slots Unit s := ⟨e.shape, e.slots.places⟩

theorem places_of_arranged {e : Expr} {s : Shape} {x : Slots Expr s}
    (arranged : e.arranged = ⟨s, x⟩) : e.places = ⟨s, x.places⟩ :=
  congrArg (fun a : (s : Shape) × Slots Expr s => (⟨a.1, a.2.places⟩ : (s : Shape) × Slots Unit s))
    arranged

theorem children_of_arranged {e : Expr} {s : Shape} {x : Slots Expr s}
    (arranged : e.arranged = ⟨s, x⟩) : e.children = x.toList :=
  congrArg (fun a : (s : Shape) × Slots Expr s => a.2.toList) arranged

/-- Own fields and the places of the children make the head of a node. -/
theorem head_eq_of_own_eq {x y : Expr} (own : x.own = y.own) (places : x.places = y.places) :
    x.head = y.head := by
  cases x with
  | call f args =>
      cases y with
      | call f' args' =>
          obtain rfl : f = f' := Expr.niladic.inj own
          obtain ⟨-, slots⟩ := Sigma.mk.inj places
          have units : args.map (fun _ => ()) = args'.map fun _ => () :=
            Option.some.inj (Slots.arguments.inj (eq_of_heq slots))
          have length : args.length = args'.length := by simpa using congrArg List.length units
          simp only [head, List.map_const', length]
      | niladic f' =>
          obtain ⟨-, slots⟩ := Sigma.mk.inj places
          cases eq_of_heq slots
      | _ => cases own
  | select q =>
      cases y with
      | select q' =>
          have distinct : q.distinct = q'.distinct := (Select.mk.inj (Expr.select.inj own)).2
          obtain ⟨-, slots⟩ := Sigma.mk.inj places
          have blanks := congrArg (Slots.map fun _ => blank) (eq_of_heq slots)
          simp only [Slots.places, Slots.map_map] at blanks
          simp only [head, Slots.select.inj blanks, distinct]
      | _ => cases own
  | _ => cases y <;> simp_all [Expr.own, head, Expr.places, slots, Slots.places, Slots.map]

/-! ## Children that a node accepts -/

/-- A node of this kind can have these children. -/
def Accepts : (e : Expr) → Slots Expr e.shape → Prop
  | .call f _, .arguments list | .niladic f, .arguments list =>
      ∀ args, list = some args → args.length = f.propagates.length
  | .join .., .join _ p => ∃ predicate, p = some predicate
  | .crossJoin _, .join _ p => p = none
  | .setOperation .., .two l r => (∃ q, l = .select q) ∧ ∃ q, r = .select q
  | _, _ => True

/-- With other children that it accepts a node has its own fields, and it has these children. -/
theorem withSlots_of_accepts {e : Expr} {x : Slots Expr e.shape} (accepts : e.Accepts x) :
    ∃ e', e.withSlots x = .ok e' ∧ e'.own = e.own ∧ e'.arranged = ⟨e.shape, x⟩ := by
  cases e with
  | call f args | niladic f =>
      cases x with
      | arguments list =>
          cases list with
          | none => exact ⟨_, rfl, rfl, rfl⟩
          | some args => exact ⟨_, if_pos (accepts args rfl), rfl, rfl⟩
  | join k t p =>
      cases x with
      | join t p =>
          obtain ⟨predicate, rfl⟩ := accepts
          exact ⟨_, rfl, rfl, rfl⟩
  | crossJoin t =>
      cases x with
      | join t p =>
          obtain rfl := accepts
          exact ⟨_, rfl, rfl, rfl⟩
  | setOperation op a l r d =>
      cases x with
      | two l r =>
          obtain ⟨⟨q, rfl⟩, q', rfl⟩ := accepts
          exact ⟨_, rfl, rfl, rfl⟩
  | _ => cases x; exact ⟨_, rfl, rfl, rfl⟩

theorem accepts_of_withSlots {e e' : Expr} {x : Slots Expr e.shape}
    (rebuilt : e.withSlots x = .ok e') : e.Accepts x := by
  cases e with
  | call f args | niladic f =>
      cases x with
      | arguments list =>
          rintro args rfl
          have made : call? f args = .ok e' := rebuilt
          unfold call? at made
          split at made
          next length => exact length
          next => cases made
  | join k t p =>
      cases x with
      | join t p =>
          cases p with
          | none => cases rebuilt
          | some p => exact ⟨p, rfl⟩
  | crossJoin t =>
      cases x with
      | join t p =>
          cases p with
          | none => rfl
          | some p => cases rebuilt
  | setOperation op a l r d =>
      cases x with
      | two l r =>
          have made : (do
            let l ← l.asSelect
            let r ← r.asSelect
            return Expr.setOperation op a l r d) = .ok e' := rebuilt
          cases left : l.asSelect with
          | error v =>
              rw [left] at made
              cases made
          | ok q =>
              cases right : r.asSelect with
              | error v =>
                  rw [left, right] at made
                  cases made
              | ok q' => exact ⟨⟨q, asSelect_eq_ok.mp left⟩, q', asSelect_eq_ok.mp right⟩
  | _ => cases x; trivial

theorem own_of_withSlots {e e' : Expr} {x : Slots Expr e.shape}
    (rebuilt : e.withSlots x = .ok e') : e'.own = e.own ∧ e'.arranged = ⟨e.shape, x⟩ := by
  obtain ⟨e'', rebuilt', fields⟩ := withSlots_of_accepts (accepts_of_withSlots rebuilt)
  obtain rfl := Except.ok.inj (rebuilt.symm.trans rebuilt')
  exact fields

/-- Children in the same places leave the head of a node. -/
theorem head_of_withSlots {e e' : Expr} {x : Slots Expr e.shape}
    (rebuilt : e.withSlots x = .ok e') (places : x.places = e.slots.places) :
    e'.head = e.head := by
  obtain ⟨own, arranged⟩ := own_of_withSlots rebuilt
  refine head_eq_of_own_eq own ?_
  rw [places_of_arranged arranged, places, Expr.places]

theorem children_of_withSlots {e e' : Expr} {x : Slots Expr e.shape}
    (rebuilt : e.withSlots x = .ok e') : e'.children = x.toList :=
  children_of_arranged (own_of_withSlots rebuilt).2

/-- A node accepts children in the places of its own if selects stay selects. -/
theorem accepts_of_places_eq {e : Expr} (flags : e.FlagsMatch) {x : Slots Expr e.shape}
    (places : x.places = e.slots.places)
    (selects : ∀ (i : Nat) (q : Select Expr), e.children[i]? = some (.select q) →
      ∃ q' : Select Expr, x.toList[i]? = some (.select q')) :
    e.Accepts x := by
  cases e with
  | call f args =>
      cases x with
      | arguments list =>
          rintro args' rfl
          have same : args'.length = args.length := by
            simpa [Slots.places, Slots.map, slots] using places
          exact same.trans flags
  | niladic f =>
      cases x with
      | arguments list =>
          rintro args rfl
          cases places
  | join k t p =>
      cases x with
      | join t' p' =>
          cases p' with
          | none => cases places
          | some p' => exact ⟨p', rfl⟩
  | crossJoin t =>
      cases x with
      | join t' p' =>
          cases p' with
          | none => rfl
          | some p' => cases places
  | setOperation op a l r d =>
      cases x with
      | two l' r' =>
          obtain ⟨q, left⟩ := selects 0 l rfl
          obtain ⟨q', right⟩ := selects 1 r rfl
          exact ⟨⟨q, Option.some.inj left⟩, q', Option.some.inj right⟩
  | _ => cases x; trivial

end Expr

/-! ## Updates -/

namespace Part

/-- A part that says where it stands stands there. -/
def IsIn (m : Memory) (p : Part) : Prop := ∀ a, p.address = some a → m a = p.expr

/-- The node at an address. -/
def load (m : Memory) (a : Nat) : Part := ⟨m a, some a⟩

theorem isIn_load (m : Memory) (a : Nat) : (load m a).IsIn m := by
  intro b address
  obtain rfl : a = b := Option.some.inj address
  rfl

theorem isIn_of_mem_map_load {m : Memory} {s : Shape} {addresses : Slots Nat s} {p : Part}
    (mem : p ∈ (addresses.map (load m)).toList) : p.IsIn m := by
  rw [Slots.toList_map] at mem
  obtain ⟨a, -, rfl⟩ := List.mem_map.mp mem
  exact isIn_load m a

theorem IsIn.eq_load {m : Memory} {p : Part} {a : Nat} (h : p.IsIn m)
    (address : p.address = some a) : p = load m a := by
  obtain ⟨expr, _⟩ := p
  obtain rfl : _ = some a := address
  obtain rfl : m a = expr := h a rfl
  rfl

end Part

namespace Expr

/-- The child at a position.  There is the node itself where no child is left. -/
def childAt (e : Expr) (i : Nat) : Expr := e.children.getD i e

theorem childAt_eq {e c : Expr} {i : Nat} (found : e.children[i]? = some c) : e.childAt i = c := by
  rw [childAt, List.getD_eq_getElem?_getD, found, Option.getD_some]

/-- The children of a node may stand at their positions. -/
theorem map_childAt_positions (e : Expr) : e.positions.map e.childAt = e.slots := by
  have child (c : Expr × Nat) (mem : c ∈ e.slots.number.toList) : e.childAt c.2 = c.1 := by
    rw [Slots.toList_number] at mem
    exact childAt_eq (List.mem_zipIdx_iff_getElem?.mp mem)
  rw [positions, Slots.map_map, Slots.map_congr child, Slots.map_fst_number]

theorem places_positions (e : Expr) : e.positions.places = e.slots.places := by
  rw [positions, Slots.places_map, Slots.places_number]

theorem toList_positions (e : Expr) : e.positions.toList = e.children.zipIdx.map Prod.snd := by
  rw [positions, Slots.toList_map, Slots.toList_number, children]

section Memory

variable {m : Memory} {e : Expr} {addresses : Slots Nat e.shape} {parts : Slots Part e.shape}

/-- A node holds the nodes that stand where its children stand, and no others. -/
theorem holds_iff (inMemory : ∀ p ∈ parts.toList, p.IsIn m) :
    e.holds parts addresses = true ↔ parts = addresses.map (Part.load m) := by
  rw [holds, beq_iff_eq]
  constructor
  · intro same
    have loaded (p : Part) (mem : p ∈ parts.toList) : p = Part.load m (p.address.getD 0) := by
      have listed : p.address ∈ (addresses.map some).toList := by
        rw [← same, Slots.toList_map]
        exact List.mem_map_of_mem mem
      rw [Slots.toList_map] at listed
      obtain ⟨a, -, address⟩ := List.mem_map.mp listed
      rw [← address]
      exact (inMemory p mem).eq_load address.symm
    calc parts
      _ = parts.map fun p => p := parts.map_id.symm
      _ = parts.map fun p => Part.load m (p.address.getD 0) := Slots.map_congr loaded
      _ = (parts.map Part.address).map fun a => Part.load m (a.getD 0) :=
          (Slots.map_map Part.address (fun a => Part.load m (a.getD 0)) parts).symm
      _ = addresses.map (Part.load m) := by rw [same, Slots.map_map]; rfl
  · rintro rfl
    rw [Slots.map_map]
    rfl

/-- The parts that a node holds are its children. -/
theorem map_expr_of_holds (stand : addresses.map m = e.slots)
    (inMemory : ∀ p ∈ parts.toList, p.IsIn m) (held : e.holds parts addresses = true) :
    parts.map Part.expr = e.slots := by
  rw [(holds_iff inMemory).mp held, Slots.map_map]
  exact stand

/-- A node is kept by an update if it holds the parts.  Otherwise it is what they give. -/
theorem update_cases {r : Revision} (updated : e.update parts addresses = .ok r) :
    (e.holds parts addresses = true ∧ r = .kept) ∨
      ∃ e', e.withSlots (parts.map Part.expr) = .ok e' ∧
        r = .changed e' (sharedParts parts addresses) := by
  unfold update at updated
  split at updated
  next held => exact .inl ⟨held, (Except.ok.inj updated).symm⟩
  next =>
    cases rebuilt : e.withSlots (parts.map Part.expr) with
    | error v =>
        rw [rebuilt] at updated
        cases updated
    | ok e' =>
        rw [rebuilt] at updated
        exact .inr ⟨e', rfl, (Except.ok.inj updated).symm⟩

/-- A child of an updated node is a child that it had or one that it was offered. -/
theorem mem_children_of_update {c : Expr} {r : Revision}
    (updated : e.update parts addresses = .ok r) (mem : c ∈ (r.of e).children) :
    c ∈ e.children ∨ ∃ p ∈ parts.toList, p.expr = c := by
  obtain ⟨-, rfl⟩ | ⟨e', rebuilt, rfl⟩ := update_cases updated
  · exact .inl mem
  · rw [Revision.of_changed, children_of_withSlots rebuilt, Slots.toList_map] at mem
    exact .inr (List.mem_map.mp mem)

/-- A node updated with parts that it accepts: it is kept if it holds the parts, and in any case it
has its own fields and the children that it was offered. -/
theorem update_of_accepts (stand : addresses.map m = e.slots)
    (inMemory : ∀ p ∈ parts.toList, p.IsIn m) (accepts : e.Accepts (parts.map Part.expr)) :
    ∃ r, e.update parts addresses = .ok r ∧ (r.isKept = true ↔ e.holds parts addresses = true) ∧
      (r.of e).own = e.own ∧ (r.of e).arranged = ⟨e.shape, parts.map Part.expr⟩ := by
  unfold update
  split
  next held =>
    refine ⟨.kept, rfl, by simp [held], rfl, ?_⟩
    rw [map_expr_of_holds stand inMemory held]
    rfl
  next notHeld =>
    obtain ⟨e', rebuilt, own, arranged⟩ := withSlots_of_accepts accepts
    exact ⟨.changed e' (sharedParts parts addresses), by rw [rebuilt]; rfl, by simp [notHeld], own,
      arranged⟩

/-- Whether a node is kept or not, it is what the parts give. -/
theorem withSlots_of_update (flags : e.FlagsMatch) (stand : addresses.map m = e.slots)
    (inMemory : ∀ p ∈ parts.toList, p.IsIn m) {r : Revision}
    (updated : e.update parts addresses = .ok r) :
    e.withSlots (parts.map Part.expr) = .ok (r.of e) := by
  obtain ⟨held, rfl⟩ | ⟨e', rebuilt, rfl⟩ := update_cases updated
  · rw [map_expr_of_holds stand inMemory held, withSlots_slots flags]
    rfl
  · exact rebuilt

/-- The children shared are the parts that stand where the child of their slot stands. -/
theorem sharedChildren_update (stand : addresses.map m = e.slots)
    (inMemory : ∀ p ∈ parts.toList, p.IsIn m) {r : Revision}
    (updated : e.update parts addresses = .ok r) :
    r.sharedChildren e = sharedParts parts addresses := by
  have before : e.children.length = addresses.toList.length := by
    rw [children, ← stand, Slots.toList_map, List.length_map]
  obtain ⟨held, rfl⟩ | ⟨e', rebuilt, rfl⟩ := update_cases updated
  · obtain rfl := (holds_iff inMemory).mp held
    refine List.ext_getElem ?_ fun i _ _ => ?_
    · simp [Revision.sharedChildren, sharedParts, before]
    · simp [Revision.sharedChildren, sharedParts, Part.load]
  · have after : e'.children.length = parts.toList.length := by
      rw [children_of_withSlots rebuilt, Slots.toList_map, List.length_map]
    refine List.ext_getElem ?_ fun i _ hi => ?_
    · simp [Revision.sharedChildren, sharedParts, before, after, Nat.min_comm]
    · simp [Revision.sharedChildren, hi]

end Memory

end Expr

/-! ## Visits of the children -/

section Visitors

variable {σ : Type} {visitor : Expr → StateT σ (Except Violation) Revision} {s s' : σ}

/-- A visitor without errors that makes a select of a select. -/
structure Rewrites (visitor : Expr → StateT σ (Except Violation) Revision) : Prop where
  total (e : Expr) (s : σ) : ∃ r s', visitor e s = .ok (r, s')
  select {q : Select Expr} {s s' : σ} {r : Revision} :
    visitor (.select q) s = .ok (r, s') → ∃ q', r.of (.select q) = .select q'

/-- What a visitor makes the child at a position offer. -/
def offering (visitor : Expr → StateT σ (Except Violation) Revision) (c : Expr × Nat) :
    StateT σ (Except Violation) Part := do
  return .ofVisit c.1 c.2 (← visitor c.1)

/-- What children offer after visits with these answers, the first one from a position. -/
def Part.ofVisits : (children : List Expr) → (position : Nat) → (answers : List Revision) →
    List Part
  | c :: rest, i, r :: answers => .ofVisit c i r :: ofVisits rest (i + 1) answers
  | _, _, _ => []

theorem Visits.offering {xs : List Expr} {answers : List Revision}
    (h : Visits visitor xs s answers s') (i : Nat) :
    Visits (SqlGen.offering visitor) (xs.zipIdx i) s (Part.ofVisits xs i answers) s' := by
  induction h generalizing i with
  | nil s => exact .nil s
  | cons first _ ih =>
      exact .cons (bind_of_ok first _) (ih (i + 1))

/-- The children that are offered are those after the visits. -/
theorem Part.map_expr_ofVisits (xs : List Expr) (i : Nat) (answers : List Revision) :
    (ofVisits xs i answers).map Part.expr = List.zipWith (fun c r => r.of c) xs answers := by
  induction xs generalizing i answers with
  | nil => rfl
  | cons c rest ih =>
      cases answers with
      | nil => rfl
      | cons r answers => cases r <;> simp [ofVisits, ofVisit, ih]

/-- A part is shared where the visitor has kept the child. -/
theorem Part.shared_ofVisits {xs : List Expr} {answers : List Revision}
    (length : answers.length = xs.length) (i : Nat) :
    List.zipWith (fun p a => p.address == some a) (ofVisits xs i answers)
      ((xs.zipIdx i).map Prod.snd) = answers.map Revision.isKept := by
  induction xs generalizing i answers with
  | nil =>
      obtain rfl := List.length_eq_zero_iff.mp length
      rfl
  | cons c rest ih =>
      cases answers with
      | nil => cases length
      | cons r answers =>
          simp only [ofVisits, List.zipIdx_cons, List.map_cons, List.zipWith_cons_cons,
            ih (Nat.succ.inj length)]
          cases r <;> simp [ofVisit]

/-- The parts stand where the children stand if the visitor has kept each of them. -/
theorem Part.addresses_ofVisits_iff {xs : List Expr} {answers : List Revision}
    (length : answers.length = xs.length) (i : Nat) :
    (ofVisits xs i answers).map Part.address = ((xs.zipIdx i).map Prod.snd).map some ↔
      ∀ r ∈ answers, r.isKept = true := by
  induction xs generalizing i answers with
  | nil =>
      obtain rfl := List.length_eq_zero_iff.mp length
      simp [ofVisits]
  | cons c rest ih =>
      cases answers with
      | nil => cases length
      | cons r answers =>
          simp only [ofVisits, List.zipIdx_cons, List.map_cons, List.cons.injEq,
            ih (Nat.succ.inj length), List.forall_mem_cons]
          cases r <;> simp [ofVisit]

theorem Part.isIn_of_mem_ofVisits {m : Memory} {xs : List Expr} {i : Nat}
    {answers : List Revision} (stand : ∀ k c, xs[k]? = some c → m (i + k) = c) {p : Part}
    (mem : p ∈ ofVisits xs i answers) : p.IsIn m := by
  induction xs generalizing i answers with
  | nil => cases mem
  | cons c rest ih =>
      cases answers with
      | nil => cases mem
      | cons r answers =>
          rcases List.mem_cons.mp mem with rfl | mem
          · intro j address
            cases r with
            | kept =>
                obtain rfl : i = j := Option.some.inj address
                exact stand 0 c rfl
            | changed result shared => cases address
          · refine ih (fun k c found => ?_) mem
            rw [Nat.add_right_comm]
            exact stand (k + 1) c found

/-- Selects among the children stay selects. -/
theorem Rewrites.selects (rewrites : Rewrites visitor) {xs : List Expr} {answers : List Revision}
    (h : Visits visitor xs s answers s') (i : Nat) (q : Select Expr)
    (child : xs[i]? = some (.select q)) :
    ∃ q', (List.zipWith (fun c r => r.of c) xs answers)[i]? = some (.select q') := by
  induction h generalizing i with
  | nil s => cases child
  | cons first _ ih =>
      cases i with
      | zero =>
          obtain rfl := Option.some.inj child
          obtain ⟨q', select⟩ := rewrites.select first
          exact ⟨q', congrArg some select⟩
      | succ i => exact ih i child

namespace Expr

/-- What a visit of the children offers, in their slots.  The node holds it if the visitor has kept
every child. -/
theorem exists_visited {e : Expr} {answers : List Revision}
    (visits : Visits visitor e.children s answers s') :
    ∃ parts : Slots Part e.shape,
      e.visitChildren visitor s = (e.update parts).map (fun r => (r, s')) ∧
      parts.places = e.slots.places ∧ parts.toList = Part.ofVisits e.children 0 answers ∧
      (e.holds parts e.positions = true ↔ ∀ answer ∈ answers, answer.isKept = true) := by
  have numbered : Visits (offering visitor) e.slots.number.toList s
      (Part.ofVisits e.children 0 answers) s' := by
    rw [Slots.toList_number]
    exact visits.offering 0
  obtain ⟨parts, visited, list, places⟩ := visit_of_visits numbered
  rw [Slots.places_number] at places
  refine ⟨parts, ?visit, places, list, ?held⟩
  case visit =>
    refine (bind_of_ok visited _).trans ?_
    cases e.update parts <;> rfl
  case held =>
    rw [← Part.addresses_ofVisits_iff visits.length_eq 0, ← list, ← toList_positions,
      ← Slots.toList_map, ← Slots.toList_map, holds, beq_iff_eq]
    refine ⟨fun same => same ▸ rfl, Slots.eq_of_places_eq ?_⟩
    rw [Slots.places_map, Slots.places_map, places, places_positions]

/-- A visit of the children runs the visitor through them in order, and updates the node with its
answers. -/
theorem visitChildren_of_visits (rewrites : Rewrites visitor) {e : Expr} (flags : e.FlagsMatch)
    {answers : List Revision} (visits : Visits visitor e.children s answers s') :
    ∃ r, e.visitChildren visitor s = .ok (r, s') ∧
      (r.isKept = true ↔ ∀ answer ∈ answers, answer.isKept = true) ∧
      (r.of e).head = e.head ∧
      (r.of e).children = List.zipWith (fun c answer => answer.of c) e.children answers ∧
      r.sharedChildren e = answers.map Revision.isKept := by
  obtain ⟨parts, visited, places, list, held⟩ := exists_visited visits
  have exprs : (parts.map Part.expr).toList =
      List.zipWith (fun c answer => answer.of c) e.children answers := by
    rw [Slots.toList_map, list, Part.map_expr_ofVisits]
  have inMemory (p : Part) (mem : p ∈ parts.toList) : p.IsIn e.childAt := by
    refine Part.isIn_of_mem_ofVisits (i := 0) (fun k c found => ?_) (list ▸ mem)
    rw [Nat.zero_add, childAt_eq found]
  have accepts : e.Accepts (parts.map Part.expr) := by
    refine accepts_of_places_eq flags ((Slots.places_map _ _).trans places) ?_
    rw [exprs]
    exact rewrites.selects visits
  obtain ⟨r, updated, kept, own, arranged⟩ :=
    update_of_accepts e.map_childAt_positions inMemory accepts
  have children : (r.of e).children =
      List.zipWith (fun c answer => answer.of c) e.children answers :=
    (children_of_arranged arranged).trans exprs
  refine ⟨r, ?visit, kept.trans held, head_eq_of_own_eq own ?places, children, ?shared⟩
  case visit =>
    rw [visited, updated]
    rfl
  case places => rw [places_of_arranged arranged, Slots.places_map, places, Expr.places]
  case shared =>
    rw [sharedChildren_update e.map_childAt_positions inMemory updated, sharedParts, list,
      toList_positions]
    exact Part.shared_ofVisits visits.length_eq 0

end Expr

end Visitors

namespace Expr

/-- A node with a visitor, and a node with parts.

Through a visit each child is handed to the visitor once, in the documented order.  The node is kept
if the visitor has kept every child.  In any case the result is the one node that has the head of
the node before and the answers as its children, and it shares the children that were kept.

Parts are accepted or refused by the kind of the node.  If they are accepted, the node is kept if
every slot gets the very node that fills it, be it from another slot that the same node fills.  In
any case the result is the one node that has the fields of the node before and the parts as its
children, and it shares the children whose slots get the very node that fills them. -/
theorem visitChildren_rebuilds (e : Expr) (flags : e.FlagsMatch) :
    (∀ {σ : Type} {visitor : Expr → StateT σ (Except Violation) Revision}, Rewrites visitor →
      ∀ s, ∃ answers s' r, Visits visitor e.inOrder s answers s' ∧
        e.visitChildren visitor s = .ok (r, s') ∧
        (r.isKept = true ↔ ∀ answer ∈ answers, answer.isKept = true) ∧
        r.sharedChildren e = answers.map Revision.isKept ∧
        ∀ x, x = r.of e ↔ x.head = e.head ∧
          x.inOrder = List.zipWith (fun c answer => answer.of c) e.inOrder answers) ∧
    ∀ (m : Memory) (addresses : Slots Nat e.shape), addresses.map m = e.slots →
      ∀ parts : Slots Part e.shape, (∀ p ∈ parts.toList, p.IsIn m) →
        ((∃ r, e.update parts addresses = .ok r) ↔ e.Accepts (parts.map Part.expr)) ∧
        ∀ r, e.update parts addresses = .ok r →
          (r.isKept = true ↔ parts = addresses.map (Part.load m)) ∧
          r.sharedChildren e = sharedParts parts addresses ∧
          ∀ x, x = r.of e ↔ x.own = e.own ∧ x.arranged = ⟨e.shape, parts.map Part.expr⟩ := by
  refine ⟨?visit, ?update⟩
  case visit =>
    intro σ visitor rewrites s
    obtain ⟨answers, s', visits⟩ := exists_visits rewrites.total e.children s
    obtain ⟨r, visited, kept, heads, children, shared⟩ :=
      visitChildren_of_visits rewrites flags visits
    rw [inOrder_eq_children]
    refine ⟨answers, s', r, visits, visited, kept, shared, fun x => ?_⟩
    rw [inOrder_eq_children]
    constructor
    · rintro rfl
      exact ⟨heads, children⟩
    · rintro ⟨head, same⟩
      exact eq_of_head_eq (head.trans heads.symm) (same.trans children.symm)
  case update =>
    intro m addresses stand parts inMemory
    have accepted : (∃ r, e.update parts addresses = .ok r) ↔
        e.Accepts (parts.map Part.expr) := by
      constructor
      · rintro ⟨r, updated⟩
        exact accepts_of_withSlots (withSlots_of_update flags stand inMemory updated)
      · intro accepts
        obtain ⟨r, updated, -⟩ := update_of_accepts stand inMemory accepts
        exact ⟨r, updated⟩
    refine ⟨accepted, fun r updated => ?_⟩
    obtain ⟨r', updated', kept, own, arranged⟩ :=
      update_of_accepts stand inMemory (accepted.mp ⟨r, updated⟩)
    obtain rfl := Except.ok.inj (updated.symm.trans updated')
    refine ⟨kept.trans (holds_iff inMemory), sharedChildren_update stand inMemory updated,
      fun x => ?_⟩
    constructor
    · rintro rfl
      exact ⟨own, arranged⟩
    · rintro ⟨own', arranged'⟩
      exact eq_of_own_eq (own'.trans own.symm) (arranged'.trans arranged.symm)

/-- Without its argument list a call of no arguments is another node. -/
example (f : Function) :
    (Expr.call f []).update (.arguments none) = .ok (.changed (.niladic f) []) := rfl

/-! ## A page of rows -/

/-- A page of a table, of limited length. -/
def page (limit : Option Expr) : Expr :=
  .select
    { projection := [.column "Id" "t" ⟨.int64, none⟩ false]
      tables := [.table ⟨"Posts", none⟩ "t"]
      limit
      offset := some (.constant (.integer 20) ⟨.int64, none⟩) }

/-- The page whose length is a parameter. -/
def sizedPage : Expr := page (some (.parameter "size" ⟨.int64, none⟩ false))

/-- The page of ten rows. -/
def pageOfTen : Expr := page (some (.constant (.integer 10) ⟨.int64, none⟩))

/-- Writes down each node it is handed, and puts the constant ten in the place of parameters. -/
def tenForParameters (e : Expr) : StateT (List Expr) (Except Violation) Revision := fun seen =>
  match e with
  | .parameter _ typing _ => .ok (.changed (.constant (.integer 10) typing) [], seen ++ [e])
  | _ => .ok (.kept, seen ++ [e])

theorem rewrites_tenForParameters : Rewrites tenForParameters where
  total e s := by cases e <;> exact ⟨_, _, rfl⟩
  select h := by
    obtain ⟨rfl, -⟩ := Prod.mk.inj (Except.ok.inj h)
    exact ⟨_, rfl⟩

/-- The page without its limit, by the positions of what is left. -/
def withoutLimit : Slots Nat sizedPage.shape :=
  .select { projection := [0], tables := [1], offset := some 3 }

/-! ## A doubled rating -/

def rating : Expr := .column "Rating" "b" ⟨.int64, none⟩ false

/-- The sum of the rating and the rating. -/
def doubledRating : Expr := .binary .add rating rating ⟨.int64, none⟩

/-- The visitor is handed the four children of the page and makes it a page of ten.  Without its
limit the page keeps its three other children.

A sum whose operands are one node is kept if they change places.  If they are equal nodes at two
addresses, the sum with them in the other order is another one. -/
theorem visitChildren_sizedPage :
    sizedPage.FlagsMatch ∧ Rewrites tenForParameters ∧
      (∃ answers, Visits tenForParameters sizedPage.inOrder [] answers sizedPage.inOrder) ∧
      sizedPage.visitChildren tenForParameters [] =
        .ok (.changed pageOfTen [true, true, false, true], sizedPage.inOrder) ∧
      sizedPage.update (withoutLimit.map (Part.load sizedPage.childAt)) =
        .ok (.changed (page none) [true, true, false]) ∧
      (page none).own = sizedPage.own ∧
      (page none).arranged = ⟨.select, withoutLimit.map sizedPage.childAt⟩ ∧
      doubledRating.update ((Slots.two 5 5).map (Part.load fun _ => rating)) (.two 5 5) =
        .ok .kept ∧
      doubledRating.update ((Slots.two 6 5).map (Part.load fun _ => rating)) (.two 5 6) =
        .ok (.changed doubledRating [false, false]) := by
  obtain ⟨visit, update⟩ := visitChildren_rebuilds sizedPage trivial
  have ten : sizedPage.visitChildren tenForParameters [] =
      .ok (.changed pageOfTen [true, true, false, true], sizedPage.inOrder) := rfl
  have dropped : sizedPage.update (withoutLimit.map (Part.load sizedPage.childAt)) =
      .ok (.changed (page none) [true, true, false]) := rfl
  obtain ⟨answers, s', r, visits, visited, -⟩ := visit rewrites_tenForParameters []
  obtain ⟨-, rfl⟩ := Prod.mk.inj (Except.ok.inj (visited.symm.trans ten))
  obtain ⟨-, updates⟩ := update _ _ sizedPage.map_childAt_positions
    (withoutLimit.map (Part.load sizedPage.childAt)) fun _ => Part.isIn_of_mem_map_load
  obtain ⟨own, arranged⟩ := ((updates _ dropped).2.2 (page none)).mp rfl
  obtain ⟨-, sum⟩ := visitChildren_rebuilds doubledRating trivial
  obtain ⟨accepts, sums⟩ := sum (fun _ => rating) (.two 5 5) rfl
    ((Slots.two 5 5).map (Part.load fun _ => rating)) fun _ => Part.isIn_of_mem_map_load
  obtain ⟨r, exchanged⟩ := accepts.mpr trivial
  cases r with
  | changed result shared => cases (sums _ exchanged).1.mpr rfl
  | kept => exact ⟨trivial, rewrites_tenForParameters, ⟨answers, visits⟩, ten, dropped, own,
      arranged, exchanged, rfl⟩

end Expr

end SqlGen
