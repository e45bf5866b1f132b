import ObjectLowering.Symbol.Name

/-!
# ObjectLowering.Unit.HeaderMap

Which header declares a type. Types are looked up by the dotted name of their outermost type, and
one without an entry is in its default header.

* `get?_put`: what is found after an entry has been set.
-/

namespace ObjectLowering

/-- Headers by the dotted names of top-level types. No name occurs twice. -/
structure HeaderMap where
  entries : List (String × String)
  distinct : entries.Pairwise fun a b => a.1 ≠ b.1

namespace HeaderMap

def empty : HeaderMap := ⟨[], .nil⟩

instance : Inhabited HeaderMap := ⟨empty⟩

/-- Sets the header of a name. A later one takes the place of an earlier one. -/
def put (m : HeaderMap) (name header : String) : HeaderMap where
  entries := (name, header) :: m.entries.filter (·.1 ≠ name)
  distinct := List.pairwise_cons.2 ⟨fun _ h => Ne.symm (by simpa using (List.mem_filter.1 h).2),
    m.distinct.filter _⟩

def get? (m : HeaderMap) (name : String) : Option String :=
  m.entries.lookup name

def contains (m : HeaderMap) (name : String) : Bool :=
  (m.get? name).isSome

def size (m : HeaderMap) : Nat :=
  m.entries.length

def isEmpty (m : HeaderMap) : Bool :=
  m.entries.isEmpty

/-- The header that declares a type. -/
def headerFor (m : HeaderMap) (name : QualifiedName) : String :=
  (m.get? name.outermost.text).getD name.outermost.defaultHeader

theorem lookup_filter_ne {entries : List (String × String)} {name other : String}
    (h : other ≠ name) : (entries.filter (·.1 ≠ name)).lookup other = entries.lookup other := by
  induction entries with
  | nil => rfl
  | cons entry rest ih =>
    obtain ⟨key, header⟩ := entry
    by_cases hk : key = name
    · subst hk
      have : (other == key) = false := by simpa using h
      simpa [List.lookup_cons, this] using ih
    · simp only [ne_eq, decide_not] at ih
      simp [List.lookup_cons, hk, ih]

theorem get?_put (m : HeaderMap) (name header other : String) :
    (m.put name header).get? other = if other = name then some header else m.get? other := by
  by_cases h : other = name
  · simp [put, get?, h]
  · have hb : (other == name) = false := by simpa using h
    simp only [put, get?, List.lookup_cons, hb, if_neg h]
    exact lookup_filter_ne h

end HeaderMap

end ObjectLowering
