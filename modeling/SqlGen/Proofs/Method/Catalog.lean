import Mathlib.Data.List.TakeWhile
import SqlGen.Method.Catalog

/-!
# Lookups in a catalog

A method is listed unless an equal one is, and it is looked up by its key.  The key says nothing of
the return type and of whether the method is static.  So methods that differ only there are rivals:
each of them is listed, and the one that was listed first is found.

A registration lists a method behind the others.  So a lookup sees the methods that are built in and
then those that were registered, in their order (`find?_registerAll`), and a later registration
matters only to lookups that failed before it.
-/

namespace SqlGen

namespace Method

variable {m r first : Method} {rest listed : List Method} {k : MethodKey}

/-! ## Methods listed before others -/

/-- The methods in front of the first place where a list has a method. -/
def before (m : Method) (listed : List Method) : List Method :=
  listed.takeWhile (· ≠ m)

theorem before_cons_self (m : Method) (rest : List Method) : m.before (m :: rest) = [] :=
  List.takeWhile_cons_of_neg (by simp)

theorem before_cons_of_ne (other : first ≠ m) :
    m.before (first :: rest) = first :: m.before rest :=
  List.takeWhile_cons_of_pos (by simpa using other)

theorem ne_of_mem_before (earlier : r ∈ m.before listed) : r ≠ m := by
  simpa using List.mem_takeWhile_imp earlier

/-- A method with the same key that is listed before a method and differs from it elsewhere. -/
structure IsRival (r m : Method) (listed : List Method) : Prop where
  earlier : r ∈ m.before listed
  sameKey : r.key = m.key
  differs : r.returnType ≠ m.returnType ∨ r.isStatic ≠ m.isStatic

theorem eq_of_key (sameKey : r.key = m.key) (sameType : r.returnType = m.returnType)
    (sameStatic : r.isStatic = m.isStatic) : r = m := by
  cases m
  cases r
  simp_all [key]

/-- Another method with the same key differs in one of the two parts outside the key. -/
theorem IsRival.of_key (earlier : r ∈ m.before listed) (sameKey : r.key = m.key) :
    r.IsRival m listed := by
  refine ⟨earlier, sameKey, ?_⟩
  by_contra same
  simp only [ne_eq, not_or, not_not] at same
  exact ne_of_mem_before earlier (eq_of_key sameKey same.1 same.2)

/-- The first method with a key is the one that has the key and no other in front of it has. -/
theorem find?_key_eq_some_iff :
    listed.find? (fun m => m.key == k) = some m ↔
      m ∈ listed ∧ m.key = k ∧ ∀ r ∈ m.before listed, r.key ≠ k := by
  induction listed with
  | nil => simp
  | cons first rest ih =>
    by_cases wanted : first.key = k
    case pos =>
      rw [List.find?_cons_of_pos (by simpa using wanted), Option.some.injEq]
      constructor
      · rintro rfl
        simp [wanted, before_cons_self]
      · rintro ⟨-, -, alone⟩
        by_contra other
        rw [before_cons_of_ne other] at alone
        exact alone first List.mem_cons_self wanted
    case neg =>
      rw [List.find?_cons_of_neg (by simpa using wanted), ih]
      by_cases same : first = m
      · subst same
        simp [wanted]
      · simp [before_cons_of_ne same, wanted, Ne.symm same]

end Method

namespace Catalog

variable {c : Catalog} {m found : Method} {k : MethodKey}

/-! ## Runs of registrations -/

/-- The catalog after some methods were registered. -/
def registerAll (c : Catalog) (ms : List Method) : Catalog :=
  ms.foldl register c

theorem find?_eq (c : Catalog) (k : MethodKey) :
    c.find? k = c.methods.find? fun m => m.key == k := rfl

/-- A method that is listed already is found before it or not at all, so leaving it out does not
matter. -/
theorem find?_register (c : Catalog) (m : Method) (k : MethodKey) :
    (c.register m).find? k = (c.find? k).or ([m].find? fun m => m.key == k) := by
  rw [register, find?_eq, find?_eq]
  split
  next listed =>
    cases found : c.methods.find? fun m => m.key == k with
    | some first => rfl
    | none =>
      have other : (m.key == k) = false := by simpa using List.find?_eq_none.mp found m listed
      simp [other]
  next => rw [List.find?_append]

theorem find?_registerAll (c : Catalog) (ms : List Method) (k : MethodKey) :
    (c.registerAll ms).find? k = (c.methods ++ ms).find? fun m => m.key == k := by
  induction ms generalizing c with
  | nil => rw [List.append_nil]; rfl
  | cons m ms ih =>
    show ((c.register m).registerAll ms).find? k = _
    rw [ih, List.find?_append, ← find?_eq, find?_register, find?_eq, ← List.find?_append,
      ← List.find?_append, List.append_assoc, List.singleton_append]

/-- A lookup that succeeds has the same answer after any registrations. -/
theorem find?_registerAll_of_some (answer : c.find? k = some found) (ms : List Method) :
    (c.registerAll ms).find? k = some found := by
  rw [find?_registerAll, List.find?_append, ← find?_eq, answer, Option.some_or]

variable {ms : List Method}

theorem exists_find?_registerAll (listed : m ∈ c.methods ++ ms) :
    ∃ first, (c.registerAll ms).find? m.key = some first := by
  rw [← Option.isSome_iff_exists, find?_registerAll, List.find?_isSome]
  exact ⟨m, listed, by simp⟩

/-- A method is found by its key unless it has a rival. -/
theorem find?_registerAll_self (listed : m ∈ c.methods ++ ms) :
    (c.registerAll ms).find? m.key = some m ↔ ∀ r : Method, ¬ r.IsRival m (c.methods ++ ms) := by
  rw [find?_registerAll, Method.find?_key_eq_some_iff]
  constructor
  · rintro ⟨-, -, alone⟩ r rival
    exact alone r rival.earlier rival.sameKey
  · intro unrivalled
    exact ⟨listed, rfl, fun r earlier sameKey => unrivalled r (.of_key earlier sameKey)⟩

-- No built-in method has a rival.
example : ∀ m ∈ Method.builtIn, builtIn.find? m.key = some m := by decide

/-- Every method that is built in or was registered has an answer for its key: the first method with
the key.  It is the method itself exactly if no rival was listed before it.  Later registrations
leave every answer as it is. -/
theorem lookup_registered (ms : List Method) :
    (∀ m ∈ Method.builtIn ++ ms,
      (∃ first ∈ Method.builtIn ++ ms, (builtIn.registerAll ms).find? m.key = some first ∧
        first.key = m.key ∧ ∀ r ∈ first.before (Method.builtIn ++ ms), r.key ≠ m.key) ∧
      ((builtIn.registerAll ms).find? m.key = some m ↔
        ∀ r : Method, ¬ r.IsRival m (Method.builtIn ++ ms))) ∧
    ∀ k found, (builtIn.registerAll ms).find? k = some found →
      ∀ more, ((builtIn.registerAll ms).registerAll more).find? k = some found := by
  refine ⟨fun m listed => ⟨?_, find?_registerAll_self listed⟩,
    fun k found answer => find?_registerAll_of_some answer⟩
  obtain ⟨first, answer⟩ := exists_find?_registerAll (c := builtIn) listed
  obtain ⟨firstListed, sameKey, alone⟩ :=
    Method.find?_key_eq_some_iff.mp ((find?_registerAll builtIn ms m.key).symm.trans answer)
  exact ⟨first, firstListed, answer, sameKey, alone⟩

/-- The absolute value of an integer as a real, which has a rival among the built-in methods. -/
def absAsReal : Method := { Method.absInt with returnType := .double }

def reverse : Method := .ofString "Reverse"

def reverseAsBytes : Method := { reverse with returnType := .bytes }

theorem lookup_registered_reverseAndAbs :
    reverse ∈ Method.builtIn ++ [absAsReal, reverse] ∧
    absAsReal ∈ Method.builtIn ++ [absAsReal, reverse] ∧
    (builtIn.registerAll [absAsReal, reverse]).find? reverse.key = some reverse ∧
    Method.absInt.IsRival absAsReal (Method.builtIn ++ [absAsReal, reverse]) ∧
    (builtIn.registerAll [absAsReal, reverse]).find? absAsReal.key ≠ some absAsReal ∧
    ((builtIn.registerAll [absAsReal, reverse]).registerAll [reverseAsBytes]).find?
      reverseAsBytes.key = some reverse := by
  obtain ⟨answers, kept⟩ := lookup_registered [absAsReal, reverse]
  have reverseListed : reverse ∈ Method.builtIn ++ [absAsReal, reverse] := by decide
  have absListed : absAsReal ∈ Method.builtIn ++ [absAsReal, reverse] := by decide
  have alone : ∀ r ∈ reverse.before (Method.builtIn ++ [absAsReal, reverse]),
      r.key ≠ reverse.key := by decide
  have rival : Method.absInt.IsRival absAsReal (Method.builtIn ++ [absAsReal, reverse]) :=
    ⟨by decide, rfl, .inl (by decide)⟩
  have found := (answers reverse reverseListed).2.mpr fun r rival =>
    alone r rival.earlier rival.sameKey
  have hidden := fun found => (answers absAsReal absListed).2.mp found Method.absInt rival
  exact ⟨reverseListed, absListed, found, rival, hidden, kept _ _ found [reverseAsBytes]⟩

/-- A registered method with a rival is not found, although it is listed. -/
theorem lookup_absAsReal :
    absAsReal ∈ (builtIn.registerAll [absAsReal]).methods ∧
    (builtIn.registerAll [absAsReal]).find? absAsReal.key = some .absInt ∧
    Method.absInt ≠ absAsReal := by
  decide

end Catalog

end SqlGen
