import Mathlib.Data.List.Forall2
import Mathlib.Data.Set.Card
import TagTemplate.Node.Equality

/-!
# Equal nodes

Nodes are equal exactly if they have one normal form, in which an empty stretch stands at zero and
no zero has a sign. So among the nodes whose doubles are numbers equality is an equivalence, and the
nodes that a list has without repetition are as many as the classes that its nodes are in.
-/

namespace TagTemplate

namespace Source

/-- The places that a stretch holds. -/
def places (s : Source) : List Nat :=
  List.range' s.start (s.stop - s.start)

def normal (s : Source) : Source :=
  if s.isEmpty then ⟨s.line, s.column, 0, 0⟩ else s

/-- Stretches of one line and column are the same if they hold the same places. -/
theorem same_iff_places {s t : Source} :
    s.same t = true ↔ s.line = t.line ∧ s.column = t.column ∧ s.places = t.places := by
  simp only [same, isEmpty, places, List.range'_inj, Bool.and_eq_true, Bool.or_eq_true,
    decide_eq_true_eq, and_assoc]
  omega

theorem same_iff_normal {s t : Source} : s.same t = true ↔ s.normal = t.normal := by
  obtain ⟨line, column, start, stop⟩ := s
  obtain ⟨line', column', start', stop'⟩ := t
  simp only [same, normal, isEmpty, Bool.and_eq_true, Bool.or_eq_true, decide_eq_true_eq]
  split <;> split <;> simp only [Source.mk.injEq, and_true] <;> omega

end Source

namespace Binary64

def IsNumber (x : Binary64) : Prop :=
  x ≠ nan

/-- The double, a zero without its sign. -/
def normal : Binary64 → Binary64
  | nan => nan
  | signed negative m => signed (if m.ordinal = 0 then false else negative) m

theorem sameNumber_iff {x y : Binary64} (h : x.IsNumber) :
    x.sameNumber y = true ↔ x.normal = y.normal := by
  cases x with
  | nan => exact absurd rfl h
  | signed negative m =>
    cases y with
    | nan => simp [sameNumber, normal]
    | signed negative' m' =>
      by_cases hm : m = m'
      · subst hm
        by_cases hZero : m.ordinal = 0 <;> simp [sameNumber, normal, hZero]
      · simp [sameNumber, normal, hm]

end Binary64

namespace Node

mutual

/-- Holds where all doubles in a node, at any depth, are numbers. -/
def IsNumeric : Node → Prop
  | raw _ _ | identifier _ _ | int _ _ => True
  | tag name parameters body _ => IsNumeric name ∧ AreNumeric parameters ∧ IsNumericBody body
  | double value _ => value.IsNumber
  | string template _ => AreNumeric template
  | expression _ left right _ => IsNumeric left ∧ IsNumeric right

def AreNumeric : List Node → Prop
  | [] => True
  | node :: nodes => IsNumeric node ∧ AreNumeric nodes

def IsNumericBody : Option (List Node) → Prop
  | none => True
  | some nodes => AreNumeric nodes

end

mutual

/-- The node with all its stretches and doubles, at any depth, in normal form. -/
def normal : Node → Node
  | raw data s => raw data s.normal
  | tag name parameters body s =>
    tag name.normal (normals parameters) (normalBody body) s.normal
  | identifier name s => identifier name s.normal
  | int value s => int value s.normal
  | double value s => double value.normal s.normal
  | string template s => string (normals template) s.normal
  | expression operator left right s => expression operator left.normal right.normal s.normal

def normals : List Node → List Node
  | [] => []
  | node :: nodes => node.normal :: normals nodes

def normalBody : Option (List Node) → Option (List Node)
  | none => none
  | some nodes => some (normals nodes)

end

mutual

theorem same_iff : ∀ (a b : Node), a.IsNumeric → (a.same b = true ↔ a.normal = b.normal)
  | raw data s, b, _ => by
    cases b <;> simp [same, normal, Source.same_iff_normal]
  | tag name ps body s, b, h => by
    cases b with
    | tag name' ps' body' s' =>
      simp only [same, normal, Bool.and_eq_true, tag.injEq, and_assoc, Source.same_iff_normal,
        same_iff name name' h.1, sameEach_iff ps ps' h.2.1, sameBody_iff body body' h.2.2]
    | _ => simp [same, normal]
  | identifier name s, b, _ => by
    cases b <;> simp [same, normal, Source.same_iff_normal]
  | int value s, b, _ => by
    cases b <;> simp [same, normal, Source.same_iff_normal]
  | double value s, b, h => by
    cases b with
    | double value' s' =>
      simp only [same, normal, Bool.and_eq_true, double.injEq, Source.same_iff_normal,
        Binary64.sameNumber_iff h]
    | _ => simp [same, normal]
  | string template s, b, h => by
    cases b with
    | string template' s' =>
      simp only [same, normal, Bool.and_eq_true, string.injEq, Source.same_iff_normal,
        sameEach_iff template template' h]
    | _ => simp [same, normal]
  | expression operator left right s, b, h => by
    cases b with
    | expression operator' left' right' s' =>
      simp only [same, normal, Bool.and_eq_true, expression.injEq, and_assoc, decide_eq_true_eq,
        Source.same_iff_normal, same_iff left left' h.1, same_iff right right' h.2]
    | _ => simp [same, normal]

theorem sameEach_iff : ∀ (as bs : List Node), AreNumeric as →
    (sameEach as bs = true ↔ normals as = normals bs)
  | [], bs, _ => by cases bs <;> simp [sameEach, normals]
  | a :: as, bs, h => by
    cases bs with
    | nil => simp [sameEach, normals]
    | cons b bs =>
      simp only [sameEach, normals, Bool.and_eq_true, List.cons.injEq, same_iff a b h.1,
        sameEach_iff as bs h.2]

theorem sameBody_iff : ∀ (as? bs? : Option (List Node)), IsNumericBody as? →
    (sameBody as? bs? = true ↔ normalBody as? = normalBody bs?)
  | none, bs?, _ => by cases bs? <;> simp [sameBody, normalBody]
  | some as, bs?, h => by
    cases bs? with
    | none => simp [sameBody, normalBody]
    | some bs => simp only [sameBody, normalBody, Option.some.injEq, sameEach_iff as bs h]

end

section

variable {nodes as bs : List Node}

theorem areNumeric_iff : AreNumeric nodes ↔ ∀ node ∈ nodes, node.IsNumeric := by
  induction nodes with
  | nil => simp [AreNumeric]
  | cons node nodes ih => rw [AreNumeric, ih, List.forall_mem_cons]

theorem normals_eq_map (nodes : List Node) : normals nodes = nodes.map normal := by
  induction nodes with
  | nil => rfl
  | cons node nodes ih => rw [normals, ih, List.map_cons]

theorem sameEach_iff_forall₂ :
    sameEach as bs = true ↔ List.Forall₂ (fun a b => a.same b = true) as bs := by
  induction as generalizing bs with
  | nil => cases bs <;> simp [sameEach]
  | cons a as ih =>
    cases bs with
    | nil => simp [sameEach]
    | cons b bs => simp [sameEach, ih]

theorem distinct_concat (nodes : List Node) (node : Node) :
    distinct (nodes ++ [node]) =
      if (distinct nodes).any (·.same node) then distinct nodes
      else distinct nodes ++ [node] :=
  List.foldl_append

theorem distinct_subset (nodes : List Node) : distinct nodes ⊆ nodes := by
  induction nodes using List.reverseRecOn with
  | nil => exact List.Subset.refl []
  | append_singleton nodes node ih =>
    rw [distinct_concat]
    split
    · exact List.subset_append_of_subset_left [node] ih
    · exact List.append_subset.mpr
        ⟨List.subset_append_of_subset_left [node] ih, List.subset_append_right nodes [node]⟩

/-- A node is left out exactly if its normal form is there. -/
theorem any_same_iff (h : AreNumeric nodes) (node : Node) :
    (distinct nodes).any (·.same node) = true ↔ node.normal ∈ (distinct nodes).map normal := by
  rw [List.any_eq_true, List.mem_map]
  refine exists_congr fun kept => and_congr_right fun hKept => ?_
  exact same_iff kept node (areNumeric_iff.mp h kept (distinct_subset nodes hKept))

/-- Every normal form is kept once. -/
theorem normals_distinct (h : AreNumeric nodes) :
    ((distinct nodes).map normal).Nodup ∧
      ∀ form, form ∈ (distinct nodes).map normal ↔ form ∈ nodes.map normal := by
  induction nodes using List.reverseRecOn with
  | nil => exact ⟨List.nodup_nil, fun _ => Iff.rfl⟩
  | append_singleton nodes node ih =>
    have hNodes : AreNumeric nodes :=
      areNumeric_iff.mpr fun kept hKept => areNumeric_iff.mp h kept (List.mem_append_left _ hKept)
    obtain ⟨hNodup, hForms⟩ := ih hNodes
    have hAny := any_same_iff hNodes node
    rw [distinct_concat]
    split
    · rename_i hSame
      refine ⟨hNodup, fun form => ?_⟩
      have hForm := (hForms _).mp (hAny.mp hSame)
      rw [hForms, List.map_append, List.mem_append, List.map_singleton, List.mem_singleton]
      exact ⟨Or.inl, fun hEither => hEither.elim id fun hEq => hEq ▸ hForm⟩
    · rename_i hNew
      rw [hAny] at hNew
      rw [List.map_append, List.map_append, List.map_singleton]
      refine ⟨?_, fun form => ?_⟩
      · rw [← List.concat_eq_append]
        exact hNodup.concat hNew
      · rw [List.mem_append, List.mem_append, hForms]

/-- As many nodes are kept as there are normal forms. -/
theorem length_distinct (h : AreNumeric nodes) :
    (distinct nodes).length = {form | form ∈ nodes.map normal}.ncard := by
  classical
  obtain ⟨hNodup, hForms⟩ := normals_distinct h
  have hKept : {form | form ∈ nodes.map normal} = ((distinct nodes).map normal).toFinset := by
    ext form
    rw [List.coe_toFinset]
    exact (hForms form).symm
  rw [hKept, Set.ncard_coe_finset, List.toFinset_card_of_nodup hNodup, List.length_map]

end

/-- The nodes whose doubles are numbers. -/
abbrev Numeric : Type :=
  {node : Node // node.IsNumeric}

namespace Numeric

theorem same_iff (a b : Numeric) : a.1.same b.1 = true ↔ a.1.normal = b.1.normal :=
  Node.same_iff a.1 b.1 a.2

theorem equivalence_same : Equivalence fun a b : Numeric => a.1.same b.1 = true where
  refl a := (same_iff a a).mpr rfl
  symm h := (same_iff _ _).mpr ((same_iff _ _).mp h).symm
  trans h h' := (same_iff _ _).mpr (((same_iff _ _).mp h).trans ((same_iff _ _).mp h'))

/-- The classes of equal nodes. -/
def classes : Setoid Numeric := ⟨fun a b => a.1.same b.1 = true, equivalence_same⟩

/-- How many nodes a list has without repetition. -/
def count (nodes : List Numeric) : Nat :=
  (distinct (nodes.map Subtype.val)).length

theorem areNumeric_map (nodes : List Numeric) : AreNumeric (nodes.map Subtype.val) := by
  rw [areNumeric_iff, List.forall_mem_map]
  exact fun node _ => node.2

/-- Equal nodes are in one class, so that there are as many classes as normal forms. -/
theorem count_eq_ncard (nodes : List Numeric) :
    count nodes = (Quotient.mk classes '' {node | node ∈ nodes}).ncard := by
  let form : Quotient classes → Node :=
    Quotient.lift (fun node => node.1.normal) fun a b => (same_iff a b).mp
  have hInjective : Function.Injective form := by
    rintro ⟨a⟩ ⟨b⟩ h
    exact Quotient.sound ((same_iff a b).mpr h)
  have hForms : {x | x ∈ (nodes.map Subtype.val).map normal} =
      form '' (Quotient.mk classes '' {node | node ∈ nodes}) := by
    ext x
    rw [Set.image_image, Set.mem_ofPred_eq, List.map_map, List.mem_map]
    rfl
  rw [count, length_distinct (areNumeric_map nodes), hForms, hInjective.injOn.ncard_image]

theorem count_congr {as bs : List Numeric} (h : ∀ node, node ∈ as ↔ node ∈ bs) :
    count as = count bs := by
  simp only [count_eq_ncard, h]

/-- A list that equals another one adds no normal form to it. -/
theorem count_append_of_sameEach {as bs : List Numeric}
    (h : sameEach (as.map Subtype.val) (bs.map Subtype.val) = true) :
    count (as ++ bs) = count as := by
  have hForms := (sameEach_iff _ _ (areNumeric_map as)).mp h
  rw [normals_eq_map, normals_eq_map] at hForms
  rw [count, count, length_distinct (areNumeric_map _), length_distinct (areNumeric_map _),
    List.map_append, List.map_append, ← hForms]
  simp only [List.mem_append, or_self]

end Numeric

/-- Equality is agreement of normal forms, so an equivalence. Lists are equal place by place, and
without repetition they have one node for each class. -/
theorem same_congruence :
    (∀ s t : Source, s.normal = t.normal ↔
      s.line = t.line ∧ s.column = t.column ∧ s.places = t.places) ∧
    (∀ a b : Numeric, a.1.same b.1 = true ↔ a.1.normal = b.1.normal) ∧
    (Equivalence fun a b : Numeric => a.1.same b.1 = true) ∧
    (∀ as bs : List Node, sameEach as bs = true ↔ as.length = bs.length ∧
      ∀ i (h : i < as.length) (h' : i < bs.length), as[i].same bs[i] = true) ∧
    (∀ as bs : List Numeric, Numeric.count (as ++ bs) =
      (Quotient.mk Numeric.classes '' {node | node ∈ as ++ bs}).ncard) ∧
    (∀ as bs : List Numeric, (∀ node, node ∈ as ↔ node ∈ bs) →
      Numeric.count as = Numeric.count bs) ∧
    ∀ as bs : List Numeric, sameEach (as.map Subtype.val) (bs.map Subtype.val) = true →
      Numeric.count (as ++ bs) = Numeric.count as :=
  ⟨fun _ _ => Source.same_iff_normal.symm.trans Source.same_iff_places, Numeric.same_iff,
    Numeric.equivalence_same, fun _ _ => sameEach_iff_forall₂.trans List.forall₂_iff_get,
    fun as bs => Numeric.count_eq_ncard (as ++ bs), fun _ _ => Numeric.count_congr,
    fun _ _ => Numeric.count_append_of_sameEach⟩

/-- Two zeros over empty stretches. -/
theorem same_congruence_zeros :
    let a : Numeric := ⟨.double (.signed false .zero) ⟨1, 4, 3, 3⟩, nofun⟩
    let b : Numeric := ⟨.double (.signed true .zero) ⟨1, 4, 5, 2⟩, nofun⟩
    (∀ node, node ∈ [a, b] ↔ node ∈ [b, a, b]) ∧ Numeric.count [a, b] = Numeric.count [b, a, b] ∧
      sameEach [a.1] [b.1] = true ∧ Numeric.count ([a] ++ [b]) = Numeric.count [a] := by
  intro a b
  obtain ⟨-, -, -, -, -, hMembers, hEqual⟩ := same_congruence
  have hSame : sameEach [a.1] [b.1] = true := by decide
  have hMem (node : Numeric) : node ∈ [a, b] ↔ node ∈ [b, a, b] := by
    simp only [List.mem_cons, List.not_mem_nil, or_false]
    tauto
  exact ⟨hMem, hMembers _ _ hMem, hSame, hEqual [a] [b] hSame⟩

end Node

end TagTemplate
