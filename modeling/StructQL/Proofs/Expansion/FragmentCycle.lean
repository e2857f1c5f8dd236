import Mathlib.Data.List.Chain
import Mathlib.Data.List.TakeWhile
import StructQL.Expansion.FragmentCycle
import StructQL.Proofs.Expansion.Depth
import StructQL.Proofs.Table

/-!
# The search for cycles of fragments

* `Query.mem_spreads`: the search follows all spreads of a fragment, at any depth.
* `Acyclic`: no fragment leads back to itself.
* `Ends`: every way from a fragment along some of the references comes to an end.
* `IsSpreadCycle`: each fragment of a list spreads the next, and the last one the first.
* `ends_of_fragmentCycles`: references that close no cycle of the search lead to an end.
* `isSpreadCycle_of_mem`: what the search meets is a cycle of fragments.
* `fragmentCycleFaults_eq_nil_iff`: **the search finds a fault just if some fragment leads back to
  itself.**
* `Acyclic.wellFounded`, `Acyclic.noNestedCycle`: what follows for a recursion along references.
-/

namespace StructQL

namespace Query

variable {nodes rest selections : List Node} {name other : Name}

/-! ## The spreads of a selection -/

theorem spreads_nil : spreads [] = [] := by simp [spreads, spreadsByLevel]

theorem mem_spreads_field {aliasName : Option Name} {arguments : List Argument}
    {directives : List Directive} :
    other ∈ spreads (.field aliasName name arguments directives selections :: rest) ↔
      other ∈ spreads selections ∨ other ∈ spreads rest := by
  simp only [spreads, spreadsByLevel, List.mem_append]
  tauto

theorem mem_spreads_inline {condition : Option Name} {directives : List Directive} :
    other ∈ spreads (.inline condition directives selections :: rest) ↔
      other ∈ spreads selections ∨ other ∈ spreads rest := by
  simp only [spreads, spreadsByLevel, List.mem_append]
  tauto

theorem mem_spreads_spread {directives : List Directive} :
    other ∈ spreads (.spread name directives :: rest) ↔ other = name ∨ other ∈ spreads rest := by
  simp only [spreads, spreadsByLevel, List.mem_append, List.mem_cons]
  tauto

theorem Spreads.mono {nested : Bool} {outer : List Node} (h : Spreads nested nodes name)
    (hsub : nodes ⊆ outer) : Spreads nested outer name := by
  cases h with
  | spread hmem => exact .spread (hsub hmem)
  | inline hmem hs => exact .inline (hsub hmem) hs
  | field hmem hs => exact .field (hsub hmem) hs

theorem exists_spreads_of_mem (nodes : List Node) (h : name ∈ spreads nodes) :
    ∃ nested, Spreads nested nodes name := by
  match nodes with
  | [] =>
    rw [spreads_nil] at h
    cases h
  | .field aliasName fieldName arguments directives selections :: rest =>
    rcases mem_spreads_field.1 h with h | h
    · obtain ⟨nested, hs⟩ := exists_spreads_of_mem selections h
      exact ⟨true, .field List.mem_cons_self hs⟩
    · obtain ⟨nested, hs⟩ := exists_spreads_of_mem rest h
      exact ⟨nested, hs.mono (List.subset_cons_self _ _)⟩
  | .inline condition directives selections :: rest =>
    rcases mem_spreads_inline.1 h with h | h
    · obtain ⟨nested, hs⟩ := exists_spreads_of_mem selections h
      exact ⟨nested, .inline List.mem_cons_self hs⟩
    · obtain ⟨nested, hs⟩ := exists_spreads_of_mem rest h
      exact ⟨nested, hs.mono (List.subset_cons_self _ _)⟩
  | .spread first directives :: rest =>
    rcases mem_spreads_spread.1 h with rfl | h
    · exact ⟨false, .spread List.mem_cons_self⟩
    · obtain ⟨nested, hs⟩ := exists_spreads_of_mem rest h
      exact ⟨nested, hs.mono (List.subset_cons_self _ _)⟩

/-- What one selection of a list spreads, the list spreads. -/
theorem mem_spreads_of_mem {node : Node} (hnode : node ∈ nodes) (h : name ∈ spreads [node]) :
    name ∈ spreads nodes := by
  have hcons : ∀ first rest,
      name ∈ spreads (first :: rest) ↔ name ∈ spreads [first] ∨ name ∈ spreads rest := by
    intro first rest
    cases first <;>
      simp only [mem_spreads_field, mem_spreads_inline, mem_spreads_spread, spreads_nil,
        List.not_mem_nil, or_false]
  induction nodes with
  | nil => cases hnode
  | cons first rest ih =>
    rw [hcons]
    rcases List.mem_cons.1 hnode with rfl | hnode
    · exact .inl h
    · exact .inr (ih hnode)

/-- **The search follows all spreads**, at any depth. -/
theorem mem_spreads : name ∈ spreads nodes ↔ ∃ nested, Spreads nested nodes name := by
  refine ⟨exists_spreads_of_mem nodes, ?_⟩
  rintro ⟨nested, hs⟩
  induction hs with
  | spread hmem => exact mem_spreads_of_mem hmem (mem_spreads_spread.2 (.inl rfl))
  | inline hmem _ ih => exact mem_spreads_of_mem hmem (mem_spreads_inline.2 (.inl ih))
  | field hmem _ ih => exact mem_spreads_of_mem hmem (mem_spreads_field.2 (.inl ih))

end Query

/-! ## References -/

section

variable {fragments : Table Query.Fragment} {name other : Name}

/-- A fragment spreads another one, at any depth. -/
def RefersTo (fragments : Table Query.Fragment) (name other : Name) : Prop :=
  ∃ nested, Refers fragments nested name other

/-- **No fragment leads back to itself.** -/
def Acyclic (fragments : Table Query.Fragment) : Prop :=
  ∀ name, ¬ Relation.TransGen (RefersTo fragments) name name

theorem refersTo_iff :
    RefersTo fragments name other ↔
      ∃ fragment, fragments.find? name = some fragment ∧
        other ∈ Query.spreads fragment.selections := by
  unfold RefersTo Refers
  simp only [Query.mem_spreads]
  constructor
  · rintro ⟨nested, fragment, hfind, hs⟩
    exact ⟨fragment, hfind, nested, hs⟩
  · rintro ⟨fragment, hfind, nested, hs⟩
    exact ⟨nested, fragment, hfind, hs⟩

/-- The names of a cycle, and the first one again. -/
def around (cycle : List Name) : List Name := cycle ++ cycle.head?.toList

/-- **A cycle of fragments**: each one spreads the next, and the last one the first. -/
structure IsSpreadCycle (fragments : Table Query.Fragment) (cycle : List Name) : Prop where
  ne_nil : cycle ≠ []
  chain : (around cycle).IsChain (RefersTo fragments)

/-- A way that comes back to where it starts leads back there. -/
theorem transGen_of_around {R : Name → Name → Prop} {first : Name} {rest : List Name}
    (h : (around (first :: rest)).IsChain R) : Relation.TransGen R first first := by
  have hway : ∀ (l : List Name) (name : Name), (name :: (l ++ [first])).IsChain R →
      Relation.TransGen R name first := by
    intro l
    induction l with
    | nil =>
      intro name hl
      exact .single (List.isChain_pair.1 hl)
    | cons next l ih =>
      intro name hl
      rw [List.cons_append, List.isChain_cons_cons] at hl
      exact .head hl.1 (ih next hl.2)
  exact hway rest first h

/-- What leads back to itself through a field leads back to itself. -/
theorem Acyclic.noNestedCycle (h : Acyclic fragments) : NoNestedCycle fragments := by
  intro name other hrefers hleads
  exact h name (.head' ⟨true, hrefers⟩ hleads)

end

/-! ## The steps of the search -/

section

variable {starts pending : List Name} {way : List Frame} {unvisited : Table Query.Fragment}
  {name spread : Name} {fragment : Query.Fragment}

theorem fragmentCycles_start_of_none (h : unvisited.find? name = none) :
    fragmentCycles (name :: starts) [] unvisited = fragmentCycles starts [] unvisited := by
  rw [fragmentCycles]
  split
  · rfl
  · simp_all

theorem fragmentCycles_start (h : unvisited.find? name = some fragment) :
    fragmentCycles (name :: starts) [] unvisited =
      fragmentCycles starts [.ofFragment fragment] (unvisited.erase name) := by
  rw [fragmentCycles]
  split <;> simp_all

theorem fragmentCycles_close (h : (⟨name, pending⟩ :: way).any (fun frame => frame.name = spread)) :
    fragmentCycles starts (⟨name, spread :: pending⟩ :: way) unvisited =
      wayFrom spread (⟨name, pending⟩ :: way) ::
        fragmentCycles starts (⟨name, pending⟩ :: way) unvisited := by
  rw [fragmentCycles, if_pos h]

theorem fragmentCycles_skip
    (h : ¬ (⟨name, pending⟩ :: way).any (fun frame => frame.name = spread))
    (hnone : unvisited.find? spread = none) :
    fragmentCycles starts (⟨name, spread :: pending⟩ :: way) unvisited =
      fragmentCycles starts (⟨name, pending⟩ :: way) unvisited := by
  rw [fragmentCycles, if_neg h]
  split
  · rfl
  · simp_all

theorem fragmentCycles_enter
    (h : ¬ (⟨name, pending⟩ :: way).any (fun frame => frame.name = spread))
    (hfind : unvisited.find? spread = some fragment) :
    fragmentCycles starts (⟨name, spread :: pending⟩ :: way) unvisited =
      fragmentCycles starts (.ofFragment fragment :: ⟨name, pending⟩ :: way)
        (unvisited.erase spread) := by
  rw [fragmentCycles, if_neg h]
  split <;> simp_all

theorem not_mem_of_not_any
    (h : ¬ way.any (fun frame => frame.name = spread)) : spread ∉ way.map Frame.name := by
  rintro hmem
  obtain ⟨frame, hframe, hname⟩ := List.mem_map.1 hmem
  exact h (List.any_eq_true.2 ⟨frame, hframe, by simpa using hname⟩)

end

/-! ## What the search leaves behind -/

section

variable {fragments : Table Query.Fragment} {closed : Name → Name → Prop} {name other : Name}

/-- **Every way from a fragment comes to an end**, along the references that are not closed. -/
def Ends (fragments : Table Query.Fragment) (closed : Name → Name → Prop) (name : Name) : Prop :=
  Acc (fun other name => RefersTo fragments name other ∧ ¬ closed name other) name

/-- What a frame of the way refers to is still to be followed, or comes to an end, or is the next
fragment of the way, or is closed. -/
inductive Followed (fragments : Table Query.Fragment) (closed : Name → Name → Prop) :
    Option Name → List Frame → Prop where
  | nil {next : Option Name} : Followed fragments closed next []
  | cons {next : Option Name} {frame : Frame} {rest : List Frame} :
    (∀ other, RefersTo fragments frame.name other → other ∈ frame.pending ∨
      Ends fragments closed other ∨ next = some other ∨ closed frame.name other) →
    Followed fragments closed (some frame.name) rest → Followed fragments closed next (frame :: rest)

/-- **A state of the search**: what has been visited and is not on the way any more comes to an
end. -/
structure Searched (fragments : Table Query.Fragment) (closed : Name → Name → Prop)
    (way : List Frame) (unvisited : Table Query.Fragment) : Prop where
  found : ∀ name fragment, unvisited.find? name = some fragment →
    fragments.find? name = some fragment
  ends : ∀ name, unvisited.find? name = none → name ∉ way.map Frame.name →
    Ends fragments closed name
  followed : Followed fragments closed none way

variable {way : List Frame} {unvisited : Table Query.Fragment} {fragment : Query.Fragment}

/-- The next fragment of a way may be left where it comes to an end. -/
theorem Followed.leave (h : Followed fragments closed (some name) way)
    (hends : Ends fragments closed name) : Followed fragments closed none way := by
  cases h with
  | nil => exact .nil
  | cons hframe hrest =>
    refine .cons (fun other hother => ?_) hrest
    rcases hframe other hother with hp | he | hnext | hc
    · exact .inl hp
    · exact .inr (.inl he)
    · cases hnext
      exact .inr (.inl hends)
    · exact .inr (.inr (.inr hc))

/-- At first nothing has been visited. -/
theorem searched_start : Searched fragments closed [] fragments := by
  refine ⟨fun _ _ h => h, fun name hnone _ => ?_, .nil⟩
  -- what is not defined refers to nothing
  refine ⟨_, ?_⟩
  rintro other ⟨⟨_, _, hfind, _⟩, _⟩
  rw [hnone] at hfind
  cases hfind

/-- A fragment is entered from the way that goes on to it. -/
theorem Searched.enter {before : List Frame} (h : Searched fragments closed before unvisited)
    (hnames : before.map Frame.name = way.map Frame.name)
    (hfind : unvisited.find? name = some fragment)
    (hfollowed : Followed fragments closed (some name) way) :
    Searched fragments closed (.ofFragment fragment :: way) (unvisited.erase name) := by
  have hname : fragment.name = name := Table.nameOf_of_find? hfind
  refine ⟨fun other fragment hother => ?_, fun other hnone hway => ?_, ?_⟩
  · exact h.found other fragment (Table.find?_of_erase hother)
  · rw [List.map_cons, List.mem_cons, not_or] at hway
    have hne : other ≠ name := fun he => hway.1 (he.trans hname.symm)
    rw [Table.find?_erase, if_neg hne] at hnone
    exact h.ends other hnone (hnames ▸ hway.2)
  · refine .cons (fun other hother => ?_) ?_
    · obtain ⟨again, hagain, hspread⟩ := refersTo_iff.1 hother
      obtain rfl : fragment = again := by
        have hfound := h.found name fragment hfind
        rw [← hname] at hfound
        exact Option.some.inj (hfound.symm.trans hagain)
      exact .inl hspread
    · rw [← hname] at hfollowed
      exact hfollowed

/-- A fragment is left once all that it refers to has been followed. -/
theorem Searched.leave (h : Searched fragments closed (⟨name, []⟩ :: way) unvisited) :
    Searched fragments closed way unvisited := by
  obtain ⟨hfound, hends, hfollowed⟩ := h
  cases hfollowed with
  | cons hframe hrest =>
    have hname : Ends fragments closed name := by
      refine ⟨_, ?_⟩
      rintro other ⟨hrefers, hopen⟩
      rcases hframe other hrefers with hp | he | hnext | hc
      · cases hp
      · exact he
      · cases hnext
      · exact absurd hc hopen
    refine ⟨hfound, fun other hnone hway => ?_, hrest.leave hname⟩
    by_cases he : other = name
    · rw [he]
      exact hname
    · refine hends other hnone ?_
      rw [List.map_cons, List.mem_cons, not_or]
      exact ⟨he, hway⟩

/-- A reference need not be followed again if it comes to an end or is closed. -/
theorem Searched.skip {pending : List Name}
    (h : Searched fragments closed (⟨name, other :: pending⟩ :: way) unvisited)
    (hskip : Ends fragments closed other ∨ closed name other) :
    Searched fragments closed (⟨name, pending⟩ :: way) unvisited := by
  obtain ⟨hfound, hends, hfollowed⟩ := h
  cases hfollowed with
  | cons hframe hrest =>
    refine ⟨hfound, hends, .cons (fun next hnext => ?_) hrest⟩
    rcases hframe next hnext with hp | he | hn | hc
    · rcases List.mem_cons.1 hp with rfl | hp
      · exact hskip.elim (fun he => .inr (.inl he)) fun hc => .inr (.inr (.inr hc))
      · exact .inl hp
    · exact .inr (.inl he)
    · cases hn
    · exact .inr (.inr (.inr hc))

/-- A reference is followed to the next fragment of the way. -/
theorem Searched.follow {pending : List Name}
    (h : Searched fragments closed (⟨name, other :: pending⟩ :: way) unvisited) :
    Followed fragments closed (some other) (⟨name, pending⟩ :: way) := by
  obtain ⟨-, -, hfollowed⟩ := h
  cases hfollowed with
  | cons hframe hrest =>
    refine .cons (fun next hnext => ?_) hrest
    rcases hframe next hnext with hp | he | hn | hc
    · rcases List.mem_cons.1 hp with rfl | hp
      · exact .inr (.inr (.inl rfl))
      · exact .inl hp
    · exact .inr (.inl he)
    · cases hn
    · exact .inr (.inr (.inr hc))

/-- A cycle goes from the fragment that is met again to the last one of the way. -/
theorem wayFrom_ends {frame : Frame} {rest : List Frame}
    (h : (frame :: rest).any (fun frame => frame.name = name) = true) :
    (wayFrom name (frame :: rest)).head? = some name ∧
      (wayFrom name (frame :: rest)).getLast? = some frame.name := by
  unfold wayFrom
  cases hcycle : ((frame :: rest).map Frame.name).reverse.dropWhile (· ≠ name) with
  | nil =>
    obtain ⟨found, hfound, hname⟩ := List.any_eq_true.1 h
    have hmem : found.name ∈ ((frame :: rest).map Frame.name).reverse :=
      List.mem_reverse.2 (List.mem_map_of_mem hfound)
    have hall : ∀ other ∈ ((frame :: rest).map Frame.name).reverse, decide (other ≠ name) = true :=
      List.dropWhile_eq_nil_iff.1 hcycle
    have hne := hall found.name hmem
    simp_all
  | cons first back =>
    have hfirst := List.head?_dropWhile_not (· ≠ name) ((frame :: rest).map Frame.name).reverse
    have hsuffix := List.dropWhile_suffix (l := ((frame :: rest).map Frame.name).reverse)
      (· ≠ name)
    rw [hcycle] at hfirst hsuffix
    refine ⟨by simpa using hfirst, ?_⟩
    rw [← getLast?_of_suffix hsuffix]
    simp

theorem find?_erase_none (h : unvisited.find? name = none) (other : Name) :
    (unvisited.erase other).find? name = none := by
  rw [Table.find?_erase, h, ite_self]

/-- **References that close no cycle of the search lead to an end**, from each fragment that has
been visited and from each start. -/
theorem ends_of_fragmentCycles (starts : List Name) (way : List Frame)
    (unvisited : Table Query.Fragment) (h : Searched fragments closed way unvisited)
    (hclosed : ∀ cycle ∈ fragmentCycles starts way unvisited, ∀ first last,
      cycle.head? = some first → cycle.getLast? = some last → closed last first) :
    ∀ name, unvisited.find? name = none ∨ name ∈ starts → Ends fragments closed name := by
  induction starts, way, unvisited using fragmentCycles.induct with
  | case1 unvisited =>
    rintro name (hnone | hname)
    · exact h.ends name hnone List.not_mem_nil
    · cases hname
  | case2 unvisited first rest hnone ih =>
    rw [fragmentCycles_start_of_none hnone] at hclosed
    rintro name (hvisited | hname)
    · exact ih h hclosed name (.inl hvisited)
    · rcases List.mem_cons.1 hname with rfl | hname
      · exact ih h hclosed name (.inl hnone)
      · exact ih h hclosed name (.inr hname)
  | case3 unvisited first rest fragment hfind ih =>
    rw [fragmentCycles_start hfind] at hclosed
    have hrest := ih (h.enter rfl hfind .nil) hclosed
    rintro name (hvisited | hname)
    · exact hrest name (.inl (find?_erase_none hvisited first))
    · rcases List.mem_cons.1 hname with rfl | hname
      · exact hrest name (.inl (by rw [Table.find?_erase, if_pos rfl]))
      · exact hrest name (.inr hname)
  | case4 starts unvisited name rest ih =>
    rw [fragmentCycles] at hclosed
    exact ih h.leave hclosed
  | case5 starts unvisited name spread pending rest way hway ih =>
    rw [fragmentCycles_close hway, List.forall_mem_cons] at hclosed
    obtain ⟨hfirst, hlast⟩ := wayFrom_ends hway
    exact ih (h.skip (.inr (hclosed.1 _ _ hfirst hlast))) hclosed.2
  | case6 starts unvisited name spread pending rest way hway hnone ih =>
    rw [fragmentCycles_skip hway hnone] at hclosed
    exact ih (h.skip (.inl (h.ends spread hnone (not_mem_of_not_any hway)))) hclosed
  | case7 starts unvisited name spread pending rest way hway fragment hfind ih =>
    rw [fragmentCycles_enter hway hfind] at hclosed
    have hentered := ih (h.enter rfl hfind h.follow) hclosed
    rintro name (hvisited | hname)
    · exact hentered name (.inl (find?_erase_none hvisited spread))
    · exact hentered name (.inr hname)

/-! ## Soundness -/

/-- **A way of the search**: what is still to be followed is referred to, and each fragment refers to
the next. The way lists its last fragment first. -/
structure Followable (fragments : Table Query.Fragment) (way : List Frame) : Prop where
  refersTo : ∀ frame ∈ way, ∀ other ∈ frame.pending, RefersTo fragments frame.name other
  chain : (way.map Frame.name).IsChain fun later earlier => RefersTo fragments earlier later

theorem Followable.nil : Followable fragments [] := ⟨List.forall_mem_nil _, .nil⟩

theorem Followable.tail {frame : Frame} (h : Followable fragments (frame :: way)) :
    Followable fragments way :=
  ⟨fun other hother => h.refersTo other (List.mem_cons_of_mem _ hother), h.chain.tail⟩

theorem Followable.skip {pending : List Name}
    (h : Followable fragments (⟨name, other :: pending⟩ :: way)) :
    Followable fragments (⟨name, pending⟩ :: way) := by
  refine ⟨?_, h.chain⟩
  rw [List.forall_mem_cons]
  exact ⟨fun next hnext => h.refersTo _ List.mem_cons_self next (List.mem_cons_of_mem _ hnext),
    h.tail.refersTo⟩

/-- All spreads of a fragment are referred to. -/
theorem Followable.cons (h : Followable fragments way) (hfind : fragments.find? name = some fragment)
    (hchain : (name :: way.map Frame.name).IsChain fun later earlier =>
      RefersTo fragments earlier later) :
    Followable fragments (.ofFragment fragment :: way) := by
  obtain rfl : fragment.name = name := Table.nameOf_of_find? hfind
  refine ⟨?_, hchain⟩
  rw [List.forall_mem_cons]
  exact ⟨fun next hnext => refersTo_iff.2 ⟨fragment, hfind, hnext⟩, h.refersTo⟩

theorem Followable.enter {pending : List Name}
    (h : Followable fragments (⟨name, other :: pending⟩ :: way))
    (hfind : fragments.find? other = some fragment) :
    Followable fragments (.ofFragment fragment :: ⟨name, pending⟩ :: way) := by
  have hrefers : RefersTo fragments name other :=
    h.refersTo _ List.mem_cons_self other List.mem_cons_self
  exact h.skip.cons hfind (h.chain.cons_cons hrefers)

/-- **Where a way comes back to one of its fragments, it goes around from there.** -/
theorem Followable.isSpreadCycle {pending : List Name}
    (h : Followable fragments (⟨name, other :: pending⟩ :: way))
    (hway : (⟨name, pending⟩ :: way).any fun frame => frame.name = other) :
    IsSpreadCycle fragments (wayFrom other (⟨name, pending⟩ :: way)) := by
  obtain ⟨hfirst, hlast⟩ := wayFrom_ends hway
  have hrefers : RefersTo fragments name other :=
    h.refersTo _ List.mem_cons_self other List.mem_cons_self
  have hchain : (wayFrom other (⟨name, pending⟩ :: way)).IsChain (RefersTo fragments) := by
    have hwhole := List.isChain_reverse.2 h.chain
    exact hwhole.suffix (List.dropWhile_suffix _)
  refine ⟨fun hnil => ?_, ?_⟩
  · rw [hnil] at hfirst
    cases hfirst
  · rw [around, hfirst]
    refine List.isChain_append.2 ⟨hchain, .singleton _, fun last hmem first hmem' => ?_⟩
    rw [hlast] at hmem
    obtain rfl := Option.some.inj hmem
    obtain rfl := Option.some.inj hmem'
    exact hrefers

/-- **What the search meets is a cycle of fragments.** -/
theorem isSpreadCycle_of_mem (starts : List Name) (way : List Frame)
    (unvisited : Table Query.Fragment) (h : Followable fragments way)
    (hfound : ∀ name fragment, unvisited.find? name = some fragment →
      fragments.find? name = some fragment) :
    ∀ cycle ∈ fragmentCycles starts way unvisited, IsSpreadCycle fragments cycle := by
  induction starts, way, unvisited using fragmentCycles.induct with
  | case1 unvisited =>
    rw [fragmentCycles]
    exact List.forall_mem_nil _
  | case2 unvisited first rest hnone ih =>
    rw [fragmentCycles_start_of_none hnone]
    exact ih h hfound
  | case3 unvisited first rest fragment hfind ih =>
    rw [fragmentCycles_start hfind]
    exact ih (h.cons (hfound first fragment hfind) (.singleton _)) fun name other hother =>
      hfound name other (Table.find?_of_erase hother)
  | case4 starts unvisited name rest ih =>
    rw [fragmentCycles]
    exact ih h.tail hfound
  | case5 starts unvisited name spread pending rest way hway ih =>
    rw [fragmentCycles_close hway, List.forall_mem_cons]
    exact ⟨h.isSpreadCycle hway, ih h.skip hfound⟩
  | case6 starts unvisited name spread pending rest way hway hnone ih =>
    rw [fragmentCycles_skip hway hnone]
    exact ih h.skip hfound
  | case7 starts unvisited name spread pending rest way hway fragment hfind ih =>
    rw [fragmentCycles_enter hway hfind]
    exact ih (h.enter (hfound spread fragment hfind)) fun name other hother =>
      hfound name other (Table.find?_of_erase hother)

end

/-! ## The faults of a table of fragments -/

section

variable {fragments : Table Query.Fragment}

/-- What a search of all fragments meets is a cycle of fragments. -/
theorem isSpreadCycle_of_mem_fragmentCycles {cycle : List Name}
    (h : cycle ∈ fragmentCycles fragments.names [] fragments) : IsSpreadCycle fragments cycle :=
  isSpreadCycle_of_mem _ _ _ .nil (fun _ _ hfind => hfind) cycle h

theorem fragmentCycles_eq_nil_of_faults (h : fragmentCycleFaults fragments = []) :
    fragmentCycles fragments.names [] fragments = [] := by
  rw [List.eq_nil_iff_forall_not_mem]
  intro cycle hcycle
  unfold fragmentCycleFaults at h
  rw [List.filterMap_eq_nil_iff] at h
  have hnone := h cycle hcycle
  cases cycle with
  | nil => exact (isSpreadCycle_of_mem_fragmentCycles hcycle).ne_nil rfl
  | cons first rest => cases hnone

/-- References that close no cycle of a search of all fragments lead to an end. -/
theorem ends_of_closed {closed : Name → Name → Prop}
    (hclosed : ∀ cycle ∈ fragmentCycles fragments.names [] fragments, ∀ first last,
      cycle.head? = some first → cycle.getLast? = some last → closed last first) (name : Name) :
    Ends fragments closed name := by
  refine ends_of_fragmentCycles fragments.names [] fragments searched_start hclosed name ?_
  cases hfind : fragments.find? name with
  | none => exact .inl rfl
  | some fragment =>
    refine .inr ?_
    simpa [Table.contains] using Table.contains_of_find? hfind

/-- Where the search meets no cycle, every way along references comes to an end. -/
theorem wellFounded_of_faults (h : fragmentCycleFaults fragments = []) :
    WellFounded fun other name => RefersTo fragments name other := by
  refine ⟨fun name => ?_⟩
  have hends : Ends fragments (fun _ _ => False) name := by
    refine ends_of_closed ?_ name
    rw [fragmentCycles_eq_nil_of_faults h]
    nofun
  refine Subrelation.accessible ?_ hends
  exact fun hrefers => ⟨hrefers, not_false⟩

/-- Where every way comes to an end, none leads back. -/
theorem not_transGen_of_wellFounded {R : Name → Name → Prop}
    (h : WellFounded fun other name => R name other) (name : Name) :
    ¬ Relation.TransGen R name name := by
  intro hcycle
  rw [← Relation.transGen_swap] at hcycle
  exact h.transGen.asymmetric _ _ hcycle hcycle

/-- **The search finds a fault just if some fragment leads back to itself.** -/
theorem fragmentCycleFaults_eq_nil_iff : fragmentCycleFaults fragments = [] ↔ Acyclic fragments := by
  constructor
  · intro h
    exact not_transGen_of_wellFounded (wellFounded_of_faults h)
  · intro hc
    unfold fragmentCycleFaults
    rw [List.filterMap_eq_nil_iff]
    intro cycle hcycle
    obtain ⟨hne, hchain⟩ := isSpreadCycle_of_mem_fragmentCycles hcycle
    obtain ⟨first, rest, rfl⟩ := List.exists_cons_of_ne_nil hne
    exact absurd (transGen_of_around hchain) (hc first)

/-- **Every way along references comes to an end** where no fragment leads back to itself. -/
theorem Acyclic.wellFounded (h : Acyclic fragments) :
    WellFounded fun other name => RefersTo fragments name other :=
  wellFounded_of_faults (fragmentCycleFaults_eq_nil_iff.2 h)

end

end StructQL
