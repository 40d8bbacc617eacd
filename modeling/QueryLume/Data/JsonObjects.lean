/-
  Objects as finite maps: members in ascending key order, found by their keys.

  The model keeps an object as the list of its members, as the library iterates over it.  Here it
  is shown to be a finite map.  `member?` finds in an ascending list exactly the members it has;
  setting a member keeps the list ascending and changes what is found under that key only; and two
  ascending lists with the same member under every key are the same list (`Ascending.ext`).  So an
  object that was built member by member can be compared with one written down at once, whatever
  the order in which it was built (`ofMembers_perm`).
-/
import QueryLume.Data.LoadedTable
import Mathlib.Data.List.Sort

namespace QueryLume

namespace Json

/-- The keys of an object are strictly ascending. -/
def Ascending (members : List (String × Json)) : Prop :=
  (members.map Prod.fst).Pairwise (· < ·)

/-! ## Finding a member

  An object is a list in ascending order of its keys, and it is determined by what is found under
  each key. -/

/-- Looking at the first member, then at the others. -/
theorem member?_cons (key : String) (value : Json) (members : List (String × Json))
    (name : String) :
    member? ((key, value) :: members) name =
      if key = name then some value else member? members name := by
  unfold member?
  by_cases h : key = name
  · rw [if_pos h, List.find?_cons_of_pos (by simpa using h)]
    rfl
  · rw [if_neg h, List.find?_cons_of_neg (by simpa using h)]

/-- Nothing is found under a name that is no key. -/
theorem member?_eq_none {members : List (String × Json)} {name : String} :
    member? members name = none ↔ name ∉ members.map Prod.fst := by
  induction members with
  | nil => exact ⟨fun _ => List.not_mem_nil, fun _ => rfl⟩
  | cons m members ih =>
    obtain ⟨key, value⟩ := m
    rw [member?_cons, List.map_cons, List.mem_cons, not_or, ← ih]
    by_cases h : key = name
    · rw [if_pos h]
      constructor
      · intro hsome
        cases hsome
      · rintro ⟨hne, -⟩
        exact absurd h.symm hne
    · rw [if_neg h]
      exact ⟨fun hnone => ⟨Ne.symm h, hnone⟩, fun hnone => hnone.2⟩

/-- What is found under a name is the member of that name. -/
theorem Ascending.member?_eq_some {members : List (String × Json)} (h : Ascending members)
    {name : String} {value : Json} :
    member? members name = some value ↔ (name, value) ∈ members := by
  induction members with
  | nil =>
    constructor
    · intro hsome
      cases hsome
    · intro hmem
      cases hmem
  | cons m members ih =>
    obtain ⟨key, value'⟩ := m
    obtain ⟨hkey, hrest⟩ := List.pairwise_cons.mp h
    rw [member?_cons, List.mem_cons]
    by_cases hname : key = name
    · subst hname
      rw [if_pos rfl]
      constructor
      · intro hvalue
        exact .inl (by rw [Option.some.inj hvalue])
      · rintro (heq | hmem)
        · rw [(Prod.mk.inj heq).2]
        · -- the key does not come again
          exact absurd (hkey key (List.mem_map.mpr ⟨_, hmem, rfl⟩)) (lt_irrefl key)
    · rw [if_neg hname, ih hrest]
      constructor
      · exact .inr
      · rintro (heq | hmem)
        · exact absurd (Prod.mk.inj heq).1.symm hname
        · exact hmem

/-- **Extensionality.** -/
theorem Ascending.ext {members members' : List (String × Json)} (h : Ascending members)
    (h' : Ascending members') (hmember : ∀ name, member? members name = member? members' name) :
    members = members' := by
  have hanti : Std.Antisymm fun m m' : String × Json => m.1 < m'.1 :=
    ⟨fun m m' hlt hgt => absurd hgt (lt_asymm hlt)⟩
  have hirrefl : Std.Irrefl fun m m' : String × Json => m.1 < m'.1 := ⟨fun m => lt_irrefl m.1⟩
  refine List.Pairwise.eq_of_mem_iff (r := fun m m' => m.1 < m'.1) (List.pairwise_map.mp h)
    (List.pairwise_map.mp h') fun m => ?_
  obtain ⟨name, value⟩ := m
  rw [← h.member?_eq_some, ← h'.member?_eq_some, hmember name]

/-! ## Setting a member

  Setting is inserting into the ascending list, and an initializer list is a fold of it; so an
  object does not depend on the order in which it was built. -/

/-- On the keys, setting a member is inserting into a set. -/
theorem keys_setMember (key : String) (value : Json) (members : List (String × Json)) :
    (setMember key value members).map Prod.fst = insertName key (members.map Prod.fst) := by
  induction members with
  | nil => rfl
  | cons m members ih =>
    obtain ⟨k, v⟩ := m
    rw [setMember, List.map_cons, insertName]
    split
    · rfl
    · split
      · rename_i heq
        rw [List.map_cons, heq]
      · rw [List.map_cons, ih]

/-- Setting a member keeps the keys ascending. -/
theorem Ascending.setMember {members : List (String × Json)} (h : Ascending members)
    (key : String) (value : Json) : Ascending (Json.setMember key value members) := by
  rw [Ascending, keys_setMember]
  exact insertName_ascending key h

/-- It changes what is found under its own key only. -/
theorem member?_setMember (key : String) (value : Json) (members : List (String × Json))
    (name : String) :
    member? (setMember key value members) name =
      if key = name then some value else member? members name := by
  induction members with
  | nil => rw [setMember, member?_cons]
  | cons m members ih =>
    obtain ⟨k, v⟩ := m
    rw [setMember]
    split
    · rw [member?_cons]
    · split
      · rename_i heq
        subst heq
        rw [member?_cons, member?_cons]
        split
        · rfl
        · rfl
      · rename_i hne
        rw [member?_cons, ih, member?_cons]
        by_cases hk : k = name
        · rw [if_pos hk, if_pos hk, if_neg fun hkey => hne (hkey.trans hk.symm)]
        · rw [if_neg hk, if_neg hk]

/-- A key greater than all others is set at the end. -/
theorem setMember_last {key : String} {value : Json} {members : List (String × Json)}
    (h : ∀ m ∈ members, m.1 < key) : setMember key value members = members ++ [(key, value)] := by
  induction members with
  | nil => rfl
  | cons m members ih =>
    obtain ⟨k, v⟩ := m
    obtain ⟨hk, hrest⟩ := List.forall_mem_cons.mp h
    rw [setMember, if_neg (lt_asymm hk), if_neg (ne_of_gt hk), ih hrest, List.cons_append]

/-- An initializer list in ascending order is the object. -/
theorem ofMembers_ascending {members : List (String × Json)} (h : Ascending members) :
    ofMembers members = .object members := by
  have hfold : ∀ (rest done : List (String × Json)), Ascending (done ++ rest) →
      rest.foldl (fun object m => setMember m.1 m.2 object) done = done ++ rest := by
    intro rest
    induction rest with
    | nil =>
      intro done _
      rw [List.foldl_nil, List.append_nil]
    | cons m rest ih =>
      intro done hdone
      have hlast : ∀ d ∈ done, d.1 < m.1 := fun d hd =>
        (List.pairwise_append.mp (List.pairwise_map.mp hdone)).2.2 d hd m List.mem_cons_self
      rw [List.foldl_cons, setMember_last hlast, ih (done ++ [m]) (by rwa [← List.append_cons]),
        ← List.append_cons]
  rw [ofMembers, hfold members [] h, List.nil_append]

/-- Setting a new member adds it. -/
theorem perm_setMember {key : String} {value : Json} : ∀ {members : List (String × Json)},
    key ∉ members.map Prod.fst → (setMember key value members).Perm ((key, value) :: members)
  | [], _ => .refl _
  | (k, v) :: members, h => by
    rw [List.map_cons, List.mem_cons, not_or] at h
    rw [setMember]
    split
    · exact .refl _
    · rw [if_neg h.1]
      exact ((perm_setMember h.2).cons (k, v)).trans (.swap ..)

/-- An initializer list without duplicate keys is put in order. -/
theorem ofMembers_sorted {members : List (String × Json)} (h : (members.map Prod.fst).Nodup) :
    ∃ object, ofMembers members = .object object ∧ Ascending object ∧ object.Perm members := by
  have hfold : ∀ (rest done : List (String × Json)), Ascending done →
      ((rest ++ done).map Prod.fst).Nodup →
      Ascending (rest.foldl (fun object m => setMember m.1 m.2 object) done) ∧
        (rest.foldl (fun object m => setMember m.1 m.2 object) done).Perm (rest ++ done) := by
    intro rest
    induction rest with
    | nil =>
      intro done hdone _
      exact ⟨hdone, .refl _⟩
    | cons m rest ih =>
      intro done hdone hnodup
      rw [List.cons_append, List.map_cons] at hnodup
      obtain ⟨hfresh, -⟩ := List.nodup_cons.mp hnodup
      rw [List.map_append, List.mem_append, not_or] at hfresh
      have hset : (setMember m.1 m.2 done).Perm (m :: done) := perm_setMember hfresh.2
      have hboth : (rest ++ setMember m.1 m.2 done).Perm (m :: (rest ++ done)) :=
        (hset.append_left rest).trans List.perm_middle
      obtain ⟨hascending, hperm⟩ := ih (setMember m.1 m.2 done) (hdone.setMember m.1 m.2)
        ((hboth.map Prod.fst).nodup_iff.mpr hnodup)
      exact ⟨hascending, hperm.trans hboth⟩
  obtain ⟨hascending, hperm⟩ := hfold members [] List.Pairwise.nil (by rwa [List.append_nil])
  rw [List.append_nil] at hperm
  exact ⟨_, rfl, hascending, hperm⟩

/-- The order of the initializer list does not matter. -/
theorem ofMembers_perm {members members' : List (String × Json)}
    (h : (members.map Prod.fst).Nodup) (hperm : members.Perm members') :
    ofMembers members = ofMembers members' := by
  obtain ⟨object, heq, hascending, hobject⟩ := ofMembers_sorted h
  obtain ⟨object', heq', hascending', hobject'⟩ :=
    ofMembers_sorted ((hperm.map Prod.fst).nodup_iff.mp h)
  have hsame : object = object' := by
    refine hascending.ext hascending' fun name => ?_
    refine Option.ext fun value => ?_
    rw [hascending.member?_eq_some, hascending'.member?_eq_some, hobject.mem_iff, hperm.mem_iff,
      hobject'.mem_iff]
  rw [heq, heq', hsame]

/-- Members set later under other keys do not matter. -/
theorem member?_foldl_of_notMem {key : String} : ∀ (rest set : List (String × Json)),
    key ∉ rest.map Prod.fst →
    member? (rest.foldl (fun object m => setMember m.1 m.2 object) set) key = member? set key
  | [], _, _ => rfl
  | m :: rest, set, h => by
    rw [List.map_cons, List.mem_cons, not_or] at h
    rw [List.foldl_cons, member?_foldl_of_notMem rest _ h.2, member?_setMember,
      if_neg fun heq => h.1 heq.symm]

/-- The members of an initializer list are found again, where no key comes twice. -/
theorem member?_foldl_of_mem {key : String} {value : Json} : ∀ (rest set : List (String × Json)),
    (rest.map Prod.fst).Nodup → (key, value) ∈ rest →
    member? (rest.foldl (fun object m => setMember m.1 m.2 object) set) key = some value
  | m :: rest, set, hnodup, hmem => by
    obtain ⟨hfirst, hrest⟩ := List.nodup_cons.mp hnodup
    rw [List.foldl_cons]
    rcases List.mem_cons.mp hmem with rfl | hlater
    · rw [member?_foldl_of_notMem rest _ hfirst, member?_setMember, if_pos rfl]
    · exact member?_foldl_of_mem rest _ hrest hlater

end Json

end QueryLume
