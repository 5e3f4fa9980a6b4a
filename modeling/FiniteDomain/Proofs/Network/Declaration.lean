import FiniteDomain.Proofs.Network.Relation

/-!
# Declaring the unknowns of a model

The unknowns of a model are declared one after the other: singletons, elements of aggregates, fields
of buckets. Each gets the domain that its text evaluates to, with all positions as candidates. So
the network before any constraint has the directory that the model itself describes, and every
choice meets it.

## Main definitions

* `Model.declarations`: what a model declares, in order.
* `Model.directory`: the unknowns of a model with their resolved domains, apart from any network.

## Main results

* `declareAll_eq_ok`: the network of the declared unknowns is sound, has the directory of the model,
  and is met by every choice.
-/

namespace FiniteDomain

/-- The numbers of the copies that a bucket holds. -/
def Bucket.copies (b : Bucket) : List UInt64 :=
  (List.range b.size.toNat).map fun i => UInt64.ofNat (i + 1)

namespace Model

/-- What a bucket declares: the fields of its bundle, for each of its copies. -/
def bucketDeclarations (m : Model) (b : Bucket) : List Declaration :=
  match m.bundle? b.bundle with
  | none => []
  | some bundle => b.copies.flatMap (b.copyDeclarations bundle)

/-- What a model declares: singletons, then elements, then fields. -/
def declarations (m : Model) : List Declaration :=
  m.singletons.map Singleton.declaration ++ m.aggregates.flatMap Aggregate.declarations ++
    m.buckets.flatMap m.bucketDeclarations

/-- The domain that the text of a declaration evaluates to. -/
def domain? (m : Model) (d : Declaration) : Option Domain :=
  (Resolver.evaluate m.context (Text.trim d.domain)).toOption

theorem domain?_eq_some_iff {m : Model} {d : Declaration} {domain : Domain} :
    m.domain? d = some domain ↔
      Resolver.evaluate m.context (Text.trim d.domain) = .ok domain :=
  toOption_eq_some_iff

/-- The unknowns of a model. Of several declarations with one key the last is found by it. -/
def directory (m : Model) : Directory where
  number? key := (m.declarations.map Declaration.key).zipIdx.reverse.lookup key
  keys := m.declarations.map Declaration.key
  domains := m.declarations.filterMap m.domain?

end Model

/-- The unknown of a declaration whose domain is resolved. -/
def Declaration.unknown (d : Declaration) (domain : Domain) : Unknown :=
  ⟨d.name, d.key, domain, domain.positions, domain.positions_ascending⟩

namespace Builder

variable {m : Model}

/-- Declaring copies one after the other declares the fields of all of them in order. -/
theorem declareCopies_eq (bucket : Bucket) (bundle : Bundle) (count : Nat) (next : UInt64)
    (b : Builder) :
    declareCopies bucket bundle count next b =
      (((List.range count).map fun i => next + UInt64.ofNat i).flatMap
        (bucket.copyDeclarations bundle)).foldlM declare b := by
  induction count generalizing next b with
  | zero => rfl
  | succ count ih =>
    have hcopies : (List.range (count + 1)).map (fun i => next + UInt64.ofNat i) =
        next :: (List.range count).map fun i => next + 1 + UInt64.ofNat i := by
      rw [List.range_succ_eq_map, List.map_cons, List.map_map]
      congr 1
      · simp
      · refine List.map_congr_left fun i _ => ?_
        show next + UInt64.ofNat (i + 1) = next + 1 + UInt64.ofNat i
        rw [UInt64.ofNat_add, UInt64.add_assoc, UInt64.add_comm 1]
        rfl
    rw [declareCopies, hcopies, List.flatMap_cons, List.foldlM_append]
    exact bind_congr fun b' => ih (next + 1) b'

/-- Declaring a bucket whose bundle exists declares its fields. -/
theorem declareBucket_eq {bucket : Bucket} {bundle : Bundle}
    (h : m.bundle? bucket.bundle = some bundle) (b : Builder) :
    declareBucket m b bucket = (m.bucketDeclarations bucket).foldlM declare b := by
  -- the copies are counted up from 1 while they are declared
  have hcopies : ((List.range bucket.size.toNat).map fun i => 1 + UInt64.ofNat i) =
      bucket.copies := by
    refine List.map_congr_left fun i _ => ?_
    rw [UInt64.ofNat_add, UInt64.add_comm]
    rfl
  rw [declareBucket, h, Model.bucketDeclarations, h, ← hcopies, ← declareCopies_eq]

/-- A declared bucket has declared its fields. -/
theorem declareBucket_eq_ok {bucket : Bucket} {b b' : Builder}
    (h : declareBucket m b bucket = .ok b') :
    (m.bucketDeclarations bucket).foldlM declare b = .ok b' := by
  cases hbundle : m.bundle? bucket.bundle with
  | none =>
    rw [declareBucket, hbundle] at h
    cases h
  | some bundle => rwa [← declareBucket_eq hbundle]

/-- Declaring buckets one after the other declares the fields of all of them in order. -/
theorem foldlM_declareBucket_eq_ok {buckets : List Bucket} {b b' : Builder}
    (h : buckets.foldlM (declareBucket m) b = .ok b') :
    (buckets.flatMap m.bucketDeclarations).foldlM declare b = .ok b' := by
  induction buckets generalizing b with
  | nil => exact h
  | cons bucket buckets ih =>
    rw [List.foldlM_cons, bind_eq_ok_iff] at h
    obtain ⟨b₁, h₁, h⟩ := h
    rw [List.flatMap_cons, List.foldlM_append, bind_eq_ok_iff]
    exact ⟨b₁, declareBucket_eq_ok h₁, ih h⟩

/-- If all bundles exist, what is declared is the declarations of the model in order. -/
theorem declareAll_eq (h : ∀ bucket ∈ m.buckets, ∃ bundle, m.bundle? bucket.bundle = some bundle) :
    declareAll m = m.declarations.foldlM declare ⟨.new m.context, .empty⟩ := by
  have hbuckets : ∀ buckets : List Bucket,
      (∀ bucket ∈ buckets, ∃ bundle, m.bundle? bucket.bundle = some bundle) → ∀ b,
        buckets.foldlM (declareBucket m) b =
          (buckets.flatMap m.bucketDeclarations).foldlM declare b := by
    intro buckets hall
    induction buckets with
    | nil => exact fun _ => rfl
    | cons bucket buckets ih =>
      intro b
      obtain ⟨⟨bundle, hbundle⟩, hrest⟩ := List.forall_mem_cons.1 hall
      rw [List.foldlM_cons, List.flatMap_cons, List.foldlM_append, declareBucket_eq hbundle]
      exact bind_congr fun b' => ih hrest b'
  rw [declareAll, Model.declarations, List.foldlM_append, List.foldlM_append, bind_assoc]
  exact bind_congr fun b₁ => bind_congr fun b₂ => hbuckets m.buckets h b₂

/-- All unknowns of a model are declared in the order of its declarations. -/
theorem foldlM_declarations {b : Builder} (h : declareAll m = .ok b) :
    m.declarations.foldlM declare ⟨.new m.context, .empty⟩ = .ok b := by
  rw [declareAll, bind_eq_ok_iff] at h
  obtain ⟨b₁, h₁, h⟩ := h
  rw [bind_eq_ok_iff] at h
  obtain ⟨b₂, h₂, h⟩ := h
  rw [Model.declarations, List.foldlM_append, List.foldlM_append, bind_eq_ok_iff]
  refine ⟨b₂, ?_, foldlM_declareBucket_eq_ok h⟩
  rw [bind_eq_ok_iff]
  exact ⟨b₁, h₁, h₂⟩

end Builder

namespace Network

variable {net : Network}

/-- A new unknown with a proper domain keeps a network sound. -/
theorem Sound.addUnknown (h : net.Sound) {u : Unknown} (hu : u.domain.Proper)
    (hcandidates : u.candidates ⊆ u.domain.positions) : (net.addUnknown u).Sound := by
  refine ⟨h.wellFormed.addUnknown h.incidence_size u, ?_, ?_, ?_, ?_⟩
  · rw [Network.addUnknown, Array.size_push, Array.size_push, h.incidence_size]
  · intro w hw
    rcases Array.mem_push.1 hw with hw | rfl
    · exact h.proper w hw
    · exact hu
  · intro w hw
    rcases Array.mem_push.1 hw with hw | rfl
    · exact h.candidates_subset w hw
    · exact hcandidates
  · intro key n hn
    have hget : (net.addUnknown u).unknowns[n]? =
        if n = net.unknowns.size then some u else net.unknowns[n]? := Array.getElem?_push
    rw [lookup, Network.addUnknown, List.lookup_cons] at hn
    rw [hget]
    split at hn
    · next heq =>
      -- the key of the new unknown leads to it from now on
      obtain rfl : net.unknowns.size = n := Option.some.inj hn
      exact ⟨u, if_pos rfl, (eq_of_beq heq).symm⟩
    · obtain ⟨w, hw, hkey⟩ := h.lookup_key hn
      have hlt := (Array.getElem?_eq_some_iff.1 hw).1
      exact ⟨w, by rw [if_neg (by omega), hw], hkey⟩

/-- The network of unknowns that are declared one after the other. -/
structure Declares (net : Network) (ds : List Declaration) (domains : List Domain) : Prop where
  /-- The network is sound. -/
  sound : net.Sound
  /-- The unknowns have the names declared. -/
  names_eq : net.unknowns.toList.map Unknown.name = ds.map Declaration.name
  /-- They have the keys declared. -/
  keys_eq : net.unknowns.toList.map Unknown.key = ds.map Declaration.key
  /-- They have the domains resolved. -/
  domains_eq : net.unknowns.toList.map Unknown.domain = domains
  /-- All positions of a domain are candidates. -/
  candidates_eq : ∀ u ∈ net.unknowns, u.candidates = u.domain.positions
  /-- A key leads to the unknown declared last. -/
  index_eq : net.index = (ds.map Declaration.key).zipIdx.reverse
  /-- There is no constraint yet. -/
  constraints_eq : net.constraints = #[]
  /-- Nor a false relation between constants. -/
  contradiction_eq : net.contradiction = false

theorem declares_empty : empty.Declares [] [] := by
  refine ⟨⟨wellFormed_empty, rfl, ?_, ?_, ?_⟩, rfl, rfl, rfl, ?_, rfl, rfl, rfl⟩ <;>
    simp [empty, lookup]

/-- One more unknown is one more declaration. -/
theorem Declares.addUnknown {ds : List Declaration} {domains : List Domain}
    (h : net.Declares ds domains) (d : Declaration) {domain : Domain} (hdomain : domain.Proper) :
    (net.addUnknown (d.unknown domain)).Declares (ds ++ [d]) (domains ++ [domain]) := by
  have hsize : net.unknowns.size = ds.length := by
    rw [← Array.length_toList, ← List.length_map Unknown.key, h.keys_eq, List.length_map]
  refine ⟨h.sound.addUnknown hdomain (List.Subset.refl _), ?_, ?_, ?_, ?_, ?_, h.constraints_eq,
    h.contradiction_eq⟩
  · rw [Network.addUnknown, Array.toList_push, List.map_append, h.names_eq, List.map_append]
    rfl
  · rw [Network.addUnknown, Array.toList_push, List.map_append, h.keys_eq, List.map_append]
    rfl
  · rw [Network.addUnknown, Array.toList_push, List.map_append, h.domains_eq]
    rfl
  · intro u hu
    rcases Array.mem_push.1 hu with hu | rfl
    · exact h.candidates_eq u hu
    · rfl
  · rw [Network.addUnknown, h.index_eq, List.map_append, List.zipIdx_append, List.reverse_append,
      hsize]
    simp [Declaration.unknown]

end Network

namespace Builder

/-- Declaring a list of unknowns resolves their domains and adds them in order. -/
theorem foldlM_declare_eq_ok {context : Context} {ds ds' : List Declaration}
    {domains : List Domain} {b b' : Builder} (hresolver : b.resolver.Faithful)
    (hcontext : b.resolver.context = context) (hnet : b.network.Declares ds' domains)
    (h : ds.foldlM declare b = .ok b') :
    ∃ domains', List.Forall₂ (fun d domain =>
        Resolver.evaluate context (Text.trim d.domain) = .ok domain) ds domains' ∧
      b'.network.Declares (ds' ++ ds) (domains ++ domains') := by
  -- the declarations made before are carried along, so that the rest starts from any such network
  induction ds generalizing b ds' domains with
  | nil =>
    obtain rfl : b = b' := by simpa [pure, Except.pure] using h
    exact ⟨[], .nil, by simpa using hnet⟩
  | cons d ds ih =>
    rw [List.foldlM_cons, bind_eq_ok_iff] at h
    obtain ⟨b₁, h₁, h⟩ := h
    rw [declare, bind_eq_ok_iff] at h₁
    obtain ⟨⟨domain, resolver⟩, hresolve, h₁⟩ := h₁
    obtain ⟨heval, hfaithful, hsame⟩ := Resolver.resolve_eq_ok hresolver hresolve
    cases h₁
    rw [hcontext] at heval
    have hstep := hnet.addUnknown d (Resolver.proper_of_evaluate heval)
    obtain ⟨domains', hall, hdeclares⟩ := ih hfaithful (hsame.trans hcontext) hstep h
    exact ⟨domain :: domains', .cons heval hall, by simpa using hdeclares⟩

end Builder

/-- Domains that are resolved one by one are those that resolution finds. -/
private theorem filterMap_domain?_eq {m : Model} {ds : List Declaration} {domains : List Domain}
    (h : List.Forall₂ (fun d domain =>
      Resolver.evaluate m.context (Text.trim d.domain) = .ok domain) ds domains) :
    ds.filterMap m.domain? = domains := by
  induction h with
  | nil => rfl
  | cons heval _ ih => rw [List.filterMap_cons, Model.domain?, heval, ih]; rfl

/-- The network of the declared unknowns has one for each declaration, with the domain that its text
evaluates to. -/
theorem declares_of_declareAll {m : Model} {b : Builder} (h : Builder.declareAll m = .ok b) :
    ∃ domains, List.Forall₂ (fun d domain =>
        Resolver.evaluate m.context (Text.trim d.domain) = .ok domain) m.declarations domains ∧
      b.network.Declares m.declarations domains := by
  obtain ⟨domains, hall, hdeclares⟩ :=
    Builder.foldlM_declare_eq_ok (Resolver.faithful_new m.context) rfl Network.declares_empty
      (Builder.foldlM_declarations h)
  exact ⟨domains, hall, by simpa using hdeclares⟩

/-- The network of the declared unknowns is sound, has the directory of the model, and is met by
every choice. -/
theorem declareAll_eq_ok {m : Model} {b : Builder} (h : Builder.declareAll m = .ok b) :
    b.network.Sound ∧ b.network.directory = m.directory ∧
      ∀ v, m.directory.Admits v → b.network.Meets v := by
  obtain ⟨domains, hall, hdeclares⟩ := declares_of_declareAll h
  -- keys, domains and the index are those that the model gives by itself
  have hdir : b.network.directory = m.directory := by
    rw [Network.directory, Model.directory, hdeclares.keys_eq, hdeclares.domains_eq,
      filterMap_domain?_eq hall]
    congr 1
    funext key
    rw [Network.lookup, hdeclares.index_eq]
  refine ⟨hdeclares.sound, hdir, ?_⟩
  intro v hv
  rw [← hdir] at hv
  refine ⟨⟨?_, ?_⟩, hdeclares.contradiction_eq⟩
  · -- every position is still a candidate
    intro i p hp
    have hlt : i < b.network.unknowns.size := by
      rw [← Network.length_domains, ← hv.length_eq]
      exact (List.getElem?_eq_some_iff.1 hp).1
    have hu : b.network.unknowns[i]? = some b.network.unknowns[i] :=
      Array.getElem?_eq_getElem hlt
    have hd : b.network.directory.domains[i]? = some b.network.unknowns[i].domain := by
      rw [Network.getElem?_domains, hu]
      rfl
    rw [Network.candidatesOf, hu]
    dsimp only
    rw [hdeclares.candidates_eq _ (Array.mem_of_getElem? hu)]
    exact Domain.mem_positions.2 (hv.inside hd hp)
  · intro c hc
    rw [hdeclares.constraints_eq] at hc
    simp at hc

end FiniteDomain
