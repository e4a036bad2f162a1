import HostPorts.Admission.Router
import HostPorts.Proofs.Admission.Placement
import HostPorts.Proofs.Json.Text
import HostPorts.Proofs.Object.Revision
import HostPorts.Proofs.Pass.Runs

/-!
What mutating reviews are answered with. An answer carries the difference between the object and
what is to be stored in its place, and a server that applies it to the object as it stood in the
review stores just that. Nothing is assumed of the store that is asked meanwhile.
-/
namespace HostPorts

section Hosted

variable {f : String → Option UInt16}

theorem ContainerPort.rehosted_hosted (cp : ContainerPort) : cp.Rehosted (cp.hosted f) := by
  cases number : f cp.label with
  | none => exact Or.inl (hosted_of_none number)
  | some n => exact Or.inr ⟨n, hosted_of_some number⟩

theorem Container.rehosted_hosted (c : Container) : c.Rehosted (c.hosted f) := by
  refine ⟨rfl, ?_⟩
  unfold hosted
  cases c.ports with
  | none => exact .none
  | some ports =>
    refine .some (List.forall₂_map_right_iff.mpr (List.forall₂_same.mpr ?_))
    exact fun cp _ => cp.rehosted_hosted

theorem PodSpec.rehosted_hosted (s : PodSpec) : s.Rehosted (s.hosted f) :=
  ⟨List.forall₂_map_right_iff.mpr (List.forall₂_same.mpr fun c _ => c.rehosted_hosted), rfl⟩

end Hosted

namespace Injection

theorem Injected.revised {portPrefix : String} {p m : Pod} {numbers : List (String × UInt16)}
    (h : Injected portPrefix p numbers m) : Pod.Revised p m where
  metadata := by
    cases annotations : m.metadata.annotations with
    | none =>
      have none : p.metadata.annotations = none := by
        rw [← Option.isNone_iff_eq_none, ← Option.not_isSome, ← h.present, annotations]
        rfl
      left
      rw [h.metadata, annotations, ← none]
    | some map =>
      have is : m.metadata.annotationMap = map := by rw [Metadata.annotationMap, annotations]; rfl
      refine Or.inr ⟨map, ?_, annotations ▸ h.metadata⟩
      intro key
      rw [← is]
      exact h.keeps
  spec := by
    rw [h.spec]
    cases p.spec with
    | none => exact .none
    | some spec => exact .some spec.rehosted_hosted

variable {σ : Type}

theorem run_inject (answer : (r : Request) → σ → r.Reply × σ) (s : σ)
    (prefixes : AnnotationPrefixes) (ns : String) (p : Pod) :
    (∃ m, ((inject prefixes ns p).run answer s).1 = .ok m) ∨
      ∃ errors, errors ≠ [] ∧ ((inject prefixes ns p).run answer s).1 = .error errors := by
  unfold inject
  simp only [Pass.run_bind, Pass.run]
  split
  next => exact Or.inl ⟨_, rfl⟩
  next faults => exact Or.inr ⟨_, faults, rfl⟩

end Injection

namespace Object

variable {k : Kind}

/-- The object with the token of its kind as one more finalizer, unless it has it or is under
deletion. -/
def shielded (o : Object k) : Object k :=
  match k.token? with
  | none => o
  | some token =>
    if o.isBeingDeleted || token.isHeldBy o.metadata then o
    else
      { o with metadata :=
        { o.metadata with finalizers := some (o.metadata.finalizerList ++ [token.text]) } }

theorem steady (o : Object k) : o.write.Steady := o.tidy.obj (by decide)

theorem diff_self (o : Object k) : Json.diff [] o.write o.write = [] := by
  have still := o.steady
  rwa [Json.Steady] at still

theorem shielded_cases (o : Object k) : o.shielded = o ∨ ∃ token : String, o.shielded =
    { o with metadata :=
      { o.metadata with finalizers := some (o.metadata.finalizerList ++ [token]) } } := by
  unfold shielded
  cases k.token? with
  | none => exact Or.inl rfl
  | some token =>
    simp only
    split
    · exact Or.inl rfl
    · exact Or.inr ⟨token.text, rfl⟩

theorem patch_shielded (controlled : k ≠ .pod) {o : Object k} {members : Members}
    (reads : read? k (.obj members) = some o) :
    ∃ raw, Json.Edit.applyAll (Json.diff [] o.write o.shielded.write) (.obj members) = some raw ∧
      read? k raw = some o.shielded := by
  rcases o.shielded_cases with same | ⟨token, is⟩
  · have still : Json.Patches (read? k) write o o := .refl o.steady
    rw [same]
    exact still _ reads
  · rw [is]
    exact patches_metadata controlled (o.metadata.patches_finalizers token) reads

theorem shielded_of_diff {o : Object k} (none : Json.diff [] o.write o.shielded.write = []) :
    o.shielded = o := by
  rcases o.shielded_cases with same | ⟨token, is⟩
  · exact same
  · rw [is, diff_metadata] at none
    exact absurd (List.map_eq_nil_iff.mp none) (o.metadata.diff_finalizers_ne_nil token)

/-- An object may also be the list of its fields, and then the token cannot be patched in. -/
theorem not_patch_shielded {o : Object k} (some : Json.diff [] o.write o.shielded.write ≠ [])
    (items : List Json) :
    Json.Edit.applyAll (Json.diff [] o.write o.shielded.write) (.arr items) = none := by
  rcases o.shielded_cases with same | ⟨token, is⟩
  · rw [same] at some
    exact absurd o.diff_self some
  · rw [is, diff_metadata] at some ⊢
    rw [Json.editsUnder] at some ⊢
    have within := Json.within_diff o.metadata.write
      (Metadata.write { o.metadata with finalizers := o.metadata.finalizerList ++ [token] })
    cases edits : Json.diff [] o.metadata.write
        (Metadata.write { o.metadata with finalizers := o.metadata.finalizerList ++ [token] }) with
    | nil =>
      rw [edits] at some
      contradiction
    | cons e rest =>
      rw [edits] at within
      have nowhere : Json.indexBelow? items.length "metadata" = none :=
        Json.indexBelow_eq_none (c := 'm') (by decide) (by decide) _
      rw [List.map_cons, Json.Edit.applyAll_cons,
        Json.Edit.apply_under (within e List.mem_cons_self), Json.descend, nowhere]
      rfl

theorem shape_of_read {o : Object k} {raw : Json} (reads : read? k raw = some o) :
    (∃ members, raw = .obj members) ∨ k ≠ .pod ∧ ∃ items, raw = .arr items := by
  by_cases controlled : k = .pod
  · subst controlled
    obtain ⟨members, is, _⟩ := Pod.read_retouched reads
    exact Or.inl ⟨members, is⟩
  · rw [read_record controlled] at reads
    obtain ⟨_, record, _⟩ := Option.bind_eq_some_iff.mp reads
    cases raw with
    | obj members => exact Or.inl ⟨members, rfl⟩
    | arr items => exact Or.inr ⟨controlled, items, rfl⟩
    | _ => cases record

theorem patchable_or_listed {o : Object k} {raw : Json} (reads : read? k raw = some o)
    (edits : List Json.Edit) :
    ((∃ members, raw = .obj members) ∨ edits = []) ∨
      (∃ items, raw = .arr items) ∧ edits ≠ [] := by
  by_cases none : edits = []
  · exact Or.inl (Or.inr none)
  · rcases shape_of_read reads with object | ⟨_, listed⟩
    · exact Or.inl (Or.inl object)
    · exact Or.inr ⟨listed, none⟩

end Object

namespace Admission

variable {σ : Type} {answer : (r : Request) → σ → r.Reply × σ} {s : σ}
  {prefixes : AnnotationPrefixes} {k : Kind}

def heldObject? (j : Json) : Option Json := do
  let review ← j.record? ["apiVersion", "kind", "request"] 3
  let query ← review.required "request" fun j => j.record? Query.fieldNames 15
  query.find? "object"

def rawObject? (body : String) : Option Json :=
  (Json.readFirst? (body.toList.dropWhile Json.isBlank)).bind fun first => heldObject? first.1

def patchOf? (answer : Json) : Option Json := do
  let m ← answer.members?
  let response ← m.required "response" Json.members?
  response.find? "patch"

/-- What a server makes of an object after the answer; without a patch it stays. -/
def patched? (answer raw : Json) : Option Json :=
  match patchOf? answer with
  | none => some raw
  | some patch => (patch.list? Json.Edit.read?).bind fun edits => Json.Edit.applyAll edits raw

theorem patchOf_write (r : Response) : patchOf? r.write =
    if r.patch = [] then none else some (.arr (r.patch.map Json.Edit.write)) := by
  cases edits : r.patch <;>
    simp [patchOf?, Response.write, Json.members?, Members.required, Response.patchMembers, edits]

theorem patched_write (r : Response) (raw : Json) :
    patched? r.write raw = Json.Edit.applyAll r.patch raw := by
  rw [patched?, patchOf_write]
  split
  next none =>
    split at none
    next empty => rw [empty]; rfl
    next => contradiction
  next patch some =>
    split at some
    next => contradiction
    next =>
      cases some
      rw [Json.list?, Json.mapM_of_reads fun e _ => Json.Edit.read_write e, Option.bind_some]

/-- A review posted to the mutating route of a kind, on a store whose state is `s`, and its
answer. -/
structure Reviewed (answer : (r : Request) → σ → r.Reply × σ) (s : σ)
    (prefixes : AnnotationPrefixes) (r : HttpRequest) (review : Review k)
    (response : Response) : Prop where
  route : Route.ofPath? (pathOf r.uri) = some (.admission .mutate k)
  read : readBody k r.body = .ok review
  answered : ((handle prefixes r).run answer s).1 = .review response

theorem Reviewed.respond {r : HttpRequest} {review : Review k} {response : Response}
    (h : Reviewed answer s prefixes r review response) :
    ((respond prefixes .mutate k review).run answer s).1 = response := by
  have answered := h.answered
  rw [handle, h.route] at answered
  simp only at answered
  split at answered
  next =>
    rw [answerReview, h.read] at answered
    split at answered
    next => cases answered
    next =>
      rw [Pass.run_bind] at answered
      cases answered
      rfl
  next => cases answered

theorem reviewed_of_read {r : HttpRequest} {review : Review k}
    (route : Route.ofPath? (pathOf r.uri) = some (.admission .mutate k))
    (posted : r.method = "POST") (typed : r.contentType.any isJsonType = true)
    (read : readBody k r.body = .ok review) :
    Reviewed answer s prefixes r review
      ((respond prefixes .mutate k review).run answer s).1 := by
  refine ⟨route, read, ?_⟩
  rw [handle, route]
  simp only [posted, answerReview, typed, read, Bool.not_true, if_true]
  rw [if_neg Bool.false_ne_true, Pass.run_bind]
  rfl

theorem Query.read_object {j : Json} {q : Query k} (reads : Query.read? k j = some q) :
    ∃ m, j.record? fieldNames 15 = some m ∧
      m.optional "object" (Object.read? k) = some q.object := by
  obtain ⟨m, record, reads⟩ := Option.bind_eq_some_iff.mp reads
  refine ⟨m, record, ?_⟩
  iterate 12 obtain ⟨_, _, reads⟩ := Option.bind_eq_some_iff.mp reads
  obtain ⟨_, object, reads⟩ := Option.bind_eq_some_iff.mp reads
  obtain ⟨_, _, reads⟩ := Option.bind_eq_some_iff.mp reads
  cases reads
  exact object

theorem Review.read_query {j : Json} {review : Review k} (reads : Review.read? k j = some review) :
    ∃ m, j.record? ["apiVersion", "kind", "request"] 3 = some m ∧
      m.optional "request" (Query.read? k) = some review.query := by
  cases j with
  | obj members =>
    obtain ⟨m, record, reads⟩ := Option.bind_eq_some_iff.mp reads
    obtain ⟨_, _, reads⟩ := Option.bind_eq_some_iff.mp reads
    obtain ⟨_, _, reads⟩ := Option.bind_eq_some_iff.mp reads
    obtain ⟨_, query, reads⟩ := Option.bind_eq_some_iff.mp reads
    cases reads
    exact ⟨m, record, query⟩
  | _ => contradiction

theorem rawObject_of_readBody {body : String} {review : Review k} {q : Query k} {o : Object k}
    (read : readBody k body = .ok review) (asked : review.query = some q)
    (given : q.object = some o) :
    ∃ raw, rawObject? body = some raw ∧ Object.read? k raw = some o := by
  rw [readBody] at read
  split at read
  next => split at read <;> cases read
  next j rest first =>
    split at read
    next => cases read
    next found reads =>
      split at read
      next =>
        cases read
        obtain ⟨m, record, query⟩ := Review.read_query reads
        rw [asked] at query
        obtain ⟨raw, there, reads⟩ := Option.bind_eq_some_iff.mp
          (Members.required_of_optional query)
        obtain ⟨m', record', object⟩ := Query.read_object reads
        rw [given] at object
        obtain ⟨raw', there', reads'⟩ := Option.bind_eq_some_iff.mp
          (Members.required_of_optional object)
        refine ⟨raw', ?_, reads'⟩
        rw [rawObject?, first, Option.bind_some]
        simp only [heldObject?, Option.bind_eq_bind]
        rw [record, Option.bind_some, Members.required, there, Option.bind_some, record',
          Option.bind_some, there']
      next => cases read

/-- What is to be stored in place of a new object: a pod with the ports that it claims, anything
else with its token. -/
def Intended (answer : (r : Request) → σ → r.Reply × σ) (s : σ) (prefixes : AnnotationPrefixes) :
    {k : Kind} → Query k → Object k → Object k → Prop
  | .pod, q, p, p' =>
    ((Injection.inject prefixes ((q.namespace_ <|> p.metadata.namespace_).getD "") p).run
      answer s).1 = .ok p'
  | _, _, o, o' => o' = o.shielded

theorem protect_create {token : ProtectionToken} (is : k.token? = some token) {r : Response}
    {q : Query k} {o : Object k} (create : q.operation = .create) (given : q.object = some o)
    (empty : r.patch = []) :
    protect token r q = { r with patch := Json.diff [] o.write o.shielded.write } := by
  have still := o.diff_self
  have same : { r with patch := [] } = r := by rw [← empty]
  rw [protect, create, given]
  simp only [Object.shielded, is]
  by_cases deleted : o.isBeingDeleted = true
  · simp [deleted, still, same]
  · by_cases held : token.isHeldBy o.metadata = true
    · simp [deleted, held, still, same, ProtectionToken.attach]
    · simp [deleted, held, ProtectionToken.attach, Response.withDiff]

theorem protect_other {token : ProtectionToken} {r : Response} {q : Query k}
    (other : q.operation ≠ .create ∨ q.object = none) : protect token r q = r := by
  obtain ⟨_, operation, _, object, _⟩ := q
  cases operation with
  | create =>
    rcases other with other | none
    · contradiction
    · cases none
      rfl
  | _ => cases object <;> rfl

theorem mutatePod_other {r : Response} {q : Query .pod}
    (other : q.operation ≠ .create ∨ q.object = none) : mutatePod prefixes r q = .done r := by
  obtain ⟨_, operation, _, object, _⟩ := q
  cases operation with
  | create =>
    rcases other with other | none
    · contradiction
    · cases none
      rfl
  | _ => cases object <;> rfl

inductive Mutates (answer : (r : Request) → σ → r.Reply × σ) (s : σ)
    (prefixes : AnnotationPrefixes) (r : Response) (q : Query k) : Response → Prop where
  | patched {o o' : Object k} (create : q.operation = .create) (given : q.object = some o)
      (intended : Intended answer s prefixes q o o') :
      Mutates answer s prefixes r q { r with patch := Json.diff [] o.write o'.write }
  | denied {errors : List FieldError} (some : errors ≠ []) :
      Mutates answer s prefixes r q (r.deny (FieldError.denial errors))
  | untouched (other : q.operation ≠ .create ∨ q.object = none) :
      Mutates answer s prefixes r q r

theorem mutates_pod (r : Response) (q : Query .pod) :
    Mutates answer s prefixes r q ((mutatePod prefixes r q).run answer s).1 := by
  by_cases create : q.operation = .create
  · cases given : q.object with
    | none =>
      rw [mutatePod_other (Or.inr given)]
      exact .untouched (Or.inr given)
    | some p =>
      rw [mutatePod, create, given]
      simp only [Pass.run_bind]
      rcases Injection.run_inject answer s prefixes
        ((q.namespace_ <|> p.metadata.namespace_).getD "") p with
        ⟨m, done⟩ | ⟨errors, some, done⟩
      · rw [done]
        exact .patched create given done
      · rw [done]
        simp only [Pass.run, Response.judge, if_neg some]
        exact .denied some
  · rw [mutatePod_other (Or.inl create)]
    exact .untouched (Or.inl create)

theorem mutates_controlled (controlled : k ≠ .pod) (token : ProtectionToken)
    (is : k.token? = some token) (r : Response) (q : Query k) (empty : r.patch = []) :
    Mutates answer s prefixes r q (protect token r q) := by
  by_cases create : q.operation = .create
  · cases given : q.object with
    | none =>
      rw [protect_other (Or.inr given)]
      exact .untouched (Or.inr given)
    | some o =>
      rw [protect_create is create given empty]
      refine .patched create given ?_
      cases k with
      | pod => contradiction
      | _ => rfl
  · rw [protect_other (Or.inl create)]
    exact .untouched (Or.inl create)

theorem mutates (r : Response) (q : Query k) (empty : r.patch = []) :
    Mutates answer s prefixes r q ((mutate prefixes k r q).run answer s).1 := by
  cases k with
  | pod => exact mutates_pod r q
  | portClass => exact mutates_controlled (by decide) .ofClass rfl r q empty
  | portPool => exact mutates_controlled (by decide) .ofPool rfl r q empty
  | portClaim => exact mutates_controlled (by decide) .ofClaim rfl r q empty
  | port => exact mutates_controlled (by decide) .ofPort rfl r q empty

theorem intended_controlled (controlled : k ≠ .pod) {q : Query k} {o o' : Object k} :
    Intended answer s prefixes q o o' ↔ o' = o.shielded := by
  cases k with
  | pod => contradiction
  | _ => rfl

theorem Intended.patched {q : Query k} {o o' : Object k} {raw : Json}
    (intended : Intended answer s prefixes q o o') (reads : Object.read? k raw = some o)
    (shape : (∃ members, raw = .obj members) ∨ Json.diff [] o.write o'.write = []) :
    ∃ raw', Json.Edit.applyAll (Json.diff [] o.write o'.write) raw = some raw' ∧
      Object.read? k raw' = some o' := by
  by_cases controlled : k = .pod
  · subst controlled
    obtain ⟨_, _, _, _, injected⟩ := Injection.run_inject_iff_injected.mp intended
    exact Pod.patches injected.revised raw reads
  · cases (intended_controlled controlled).mp intended
    rcases shape with ⟨members, rfl⟩ | none
    · exact Object.patch_shielded controlled reads
    · rw [none, Object.shielded_of_diff none]
      exact ⟨raw, rfl, reads⟩

theorem Intended.not_patched {q : Query k} {o o' : Object k} {items : List Json}
    (intended : Intended answer s prefixes q o o')
    (reads : Object.read? k (.arr items) = some o)
    (some : Json.diff [] o.write o'.write ≠ []) :
    Json.Edit.applyAll (Json.diff [] o.write o'.write) (.arr items) = none := by
  rcases Object.shape_of_read reads with ⟨_, object⟩ | ⟨controlled, _⟩
  · cases object
  · cases (intended_controlled controlled).mp intended
    exact Object.not_patch_shielded some items

theorem Intended.patch_iff {q : Query k} {o o' : Object k} {raw : Json}
    (intended : Intended answer s prefixes q o o') (reads : Object.read? k raw = some o) :
    (∃ raw', Json.Edit.applyAll (Json.diff [] o.write o'.write) raw = some raw' ∧
      Object.read? k raw' = some o') ↔
    (∃ members, raw = .obj members) ∨ Json.diff [] o.write o'.write = [] := by
  refine ⟨?_, intended.patched reads⟩
  rintro ⟨raw', applied, _⟩
  rcases Object.patchable_or_listed reads (Json.diff [] o.write o'.write) with
    shape | ⟨⟨items, rfl⟩, some⟩
  · exact shape
  · rw [intended.not_patched reads some] at applied
    cases applied

theorem Intended.unpatched_iff {q : Query k} {o o' : Object k} {raw : Json}
    (intended : Intended answer s prefixes q o o') (reads : Object.read? k raw = some o) :
    Json.Edit.applyAll (Json.diff [] o.write o'.write) raw = none ↔
      (∃ items, raw = .arr items) ∧ Json.diff [] o.write o'.write ≠ [] := by
  constructor
  · intro fails
    rcases Object.patchable_or_listed reads (Json.diff [] o.write o'.write) with shape | listed
    · obtain ⟨raw', applied, _⟩ := intended.patched reads shape
      cases fails.symm.trans applied
    · exact listed
  · rintro ⟨⟨items, rfl⟩, some⟩
    exact intended.not_patched reads some

theorem patchOf_eq_none {r : Response} : patchOf? r.write = none ↔ r.patch = [] := by
  rw [patchOf_write]
  split
  next empty => exact ⟨fun _ => empty, fun _ => rfl⟩
  next some => exact ⟨nofun, fun empty => absurd empty some⟩

theorem Reviewed.mutates {r : HttpRequest} {review : Review k} {response : Response} {q : Query k}
    (h : Reviewed answer s prefixes r review response) (asked : review.query = some q) :
    Mutates answer s prefixes (.allow review q) q response := by
  have run := h.respond
  rw [Admission.respond, asked] at run
  exact run ▸ Admission.mutates (.allow review q) q rfl

theorem Reviewed.created {r : HttpRequest} {review : Review k} {response : Response} {q : Query k}
    {o : Object k} (h : Reviewed answer s prefixes r review response)
    (asked : review.query = some q) (create : q.operation = .create) (given : q.object = some o)
    (allowed : response.allowed = true) :
    ∃ raw o', rawObject? r.body = some raw ∧ Object.read? k raw = some o ∧
      Intended answer s prefixes q o o' ∧
      ((∃ raw', patched? response.write raw = some raw' ∧ Object.read? k raw' = some o') ↔
        (∃ members, raw = .obj members) ∨ patchOf? response.write = none) ∧
      (patched? response.write raw = none ↔
        (∃ items, raw = .arr items) ∧ patchOf? response.write ≠ none) := by
  rw [Ne, patchOf_eq_none]
  have read := h.read
  cases h.mutates asked with
  | patched _ given' intended =>
    cases given.symm.trans given'
    obtain ⟨raw, there, reads⟩ := rawObject_of_readBody read asked given
    refine ⟨raw, _, there, reads, intended, ?_⟩
    simp only [patched_write]
    exact ⟨intended.patch_iff reads, intended.unpatched_iff reads⟩
  | denied => cases allowed
  | untouched other =>
    rcases other with other | none
    · exact absurd create other
    · cases none.symm.trans given

/-- Pods are never given as lists, so an admitted pod is always patched. -/
theorem Reviewed.created_pod {r : HttpRequest} {review : Review .pod} {response : Response}
    {q : Query .pod} {p : Pod} (h : Reviewed answer s prefixes r review response)
    (asked : review.query = some q) (create : q.operation = .create) (given : q.object = some p)
    (allowed : response.allowed = true) :
    ∃ raw raw' m, rawObject? r.body = some raw ∧ patched? response.write raw = some raw' ∧
      Object.read? .pod raw' = some m ∧ Intended answer s prefixes q p m := by
  obtain ⟨raw, m, there, reads, intended, patched, _⟩ := h.created asked create given allowed
  obtain ⟨members, is, _⟩ := Pod.read_retouched reads
  obtain ⟨raw', does, reads'⟩ := patched.mpr (Or.inl ⟨members, is⟩)
  exact ⟨raw, raw', m, there, does, reads', intended⟩

theorem Reviewed.unpatched {r : HttpRequest} {review : Review k} {response : Response}
    (h : Reviewed answer s prefixes r review response)
    (other : response.allowed = false ∨ ∀ q, review.query = some q → q.operation ≠ .create) :
    patchOf? response.write = none := by
  rw [patchOf_eq_none]
  cases asked : review.query with
  | none =>
    have run := h.respond
    rw [Admission.respond, asked] at run
    cases run
    rfl
  | some q =>
    cases h.mutates asked with
    | patched create _ _ =>
      rcases other with denied | other
      · cases denied
      · exact absurd create (other q asked)
    | denied => rfl
    | untouched => rfl

/-- Patches reproduce what is intended. A new object that is allowed is, after the patch of the
answer, just what is to be stored in its place, whatever else its text holds; only where an object
is given as the list of its fields, a patch of it cannot be applied. No other answer carries a
patch. -/
theorem patches_reproduce {r : HttpRequest} {review : Review k} {response : Response}
    (h : Reviewed answer s prefixes r review response) :
    (∀ q o, review.query = some q → q.operation = .create → q.object = some o →
      response.allowed = true →
      ∃ raw o', rawObject? r.body = some raw ∧ Object.read? k raw = some o ∧
        Intended answer s prefixes q o o' ∧
        ((∃ raw', patched? response.write raw = some raw' ∧ Object.read? k raw' = some o') ↔
          (∃ members, raw = .obj members) ∨ patchOf? response.write = none) ∧
        (patched? response.write raw = none ↔
          (∃ items, raw = .arr items) ∧ patchOf? response.write ≠ none)) ∧
    (response.allowed = false ∨ (∀ q, review.query = some q → q.operation ≠ .create) →
      patchOf? response.write = none) :=
  ⟨fun _ _ => h.created, h.unpatched⟩

def triple (last : String) : Json :=
  .obj [("group", .str ""), ("version", .str "v1"), (last, .str "")]

def creation (object : Json) : Json :=
  .obj [("apiVersion", .str "v1"), ("kind", .str "AdmissionReview"),
    ("request", .obj [("uid", .str "u"), ("kind", triple "kind"), ("resource", triple "resource"),
      ("operation", .str "CREATE"), ("userInfo", .obj []), ("object", object)])]

def posted (k : Kind) (object : Json) : HttpRequest where
  method := "POST"
  uri := "/mutate/" ++ k.plural
  contentType := some "application/json"
  body := (creation object).render

theorem readBody_posted {object : Json} {review : Review k}
    (reads : ((Json.readFirst? ((creation object).chars.dropWhile Json.isBlank)).filter
      (·.2.all Json.isBlank)).bind (fun first => Review.read? k first.1) = some review) :
    readBody k (posted k object).body = .ok review := by
  obtain ⟨⟨j, rest⟩, first, reads⟩ := Option.bind_eq_some_iff.mp reads
  obtain ⟨first, blank⟩ := Option.filter_eq_some_iff.mp first
  simp only [readBody, posted, Json.toList_render, first, reads, if_pos blank]

theorem rawObject_posted (object : Json) :
    rawObject? (posted k object).body =
      (Json.readFirst? ((creation object).chars.dropWhile Json.isBlank)).bind
        fun first => heldObject? first.1 := by
  rw [rawObject?, posted, Json.toList_render]

open Cluster (noon)

def postedClass : HttpRequest :=
  posted .portClass (.obj [("metadata", .obj []), ("spec", .obj []), ("more", .null)])

theorem patches_reproduce_class : ∃ (review : Review .portClass) (response : Response),
    Reviewed (Store.answer noon) {} ⟨"claim", "port"⟩ postedClass review response ∧
    ∃ raw raw' : Json, rawObject? postedClass.body = some raw ∧
      patched? response.write raw = some raw' ∧
      (Object.read? .portClass raw').map (·.metadata.finalizers) =
        some (some [ProtectionToken.ofClass.text]) := by
  have read : readBody .portClass postedClass.body =
      .ok ⟨"v1", "AdmissionReview", some ⟨"u", .create, none, some ⟨{}, {}, none⟩, none⟩⟩ :=
    readBody_posted (by decide +kernel)
  have reviewed : Reviewed (Store.answer noon) {} ⟨"claim", "port"⟩ postedClass _ _ :=
    reviewed_of_read (by decide +kernel) rfl (by decide +kernel) read
  obtain ⟨raw, o', there, _, intended, patched, _⟩ :=
    (patches_reproduce reviewed).1 _ _ rfl rfl rfl rfl
  have shape : ((rawObject? postedClass.body).bind Json.members?).isSome = true := by
    rw [postedClass, rawObject_posted]
    decide +kernel
  rw [there, Option.bind_some] at shape
  obtain ⟨members, is⟩ := Option.isSome_iff_exists.mp shape
  obtain ⟨raw', does, reads⟩ := patched.mpr (Or.inl ⟨members, Json.eq_obj_of_members is⟩)
  cases intended
  exact ⟨_, _, reviewed, raw, raw', there, does, congrArg _ reads⟩

def postedList : HttpRequest := posted .portClass (.arr [.obj [], .obj [], .null])

/-- A class that is the list of its fields gets its token as well, but by a patch that cannot be
applied to a list. -/
theorem listed_class_unpatched :
    ∃ (review : Review .portClass) (q : Query .portClass) (o : PortClass) (response : Response),
      Reviewed (Store.answer noon) {} ⟨"claim", "port"⟩ postedList review response ∧
      review.query = some q ∧ q.operation = .create ∧ q.object = some o ∧
      response.allowed = true ∧
      ∃ raw, rawObject? postedList.body = some raw ∧ patched? response.write raw = none := by
  have read : readBody .portClass postedList.body =
      .ok ⟨"v1", "AdmissionReview", some ⟨"u", .create, none, some ⟨{}, {}, none⟩, none⟩⟩ :=
    readBody_posted (by decide +kernel)
  have reviewed : Reviewed (Store.answer noon) {} ⟨"claim", "port"⟩ postedList _ _ :=
    reviewed_of_read (by decide +kernel) rfl (by decide +kernel) read
  refine ⟨_, _, _, _, reviewed, rfl, rfl, rfl, rfl, ?_⟩
  rw [postedList, rawObject_posted]
  simp only [← Option.isNone_iff_eq_none, ← Option.any_eq_true]
  decide +kernel

end Admission
end HostPorts
