import Mathlib.Data.List.Chain
import TagTemplate.Proofs.Provenance

/-!
# How stretches lie

The nodes of a template tile its buffer: each starts where the one before it ends, and the bytes of
a raw passage are the escaped form of its data. The parts of a tag or of an expression lie in its
stretch from left to right, and there is one comma between two parameters. All this holds in the
buffer that a node belongs to, at every depth.
-/

namespace TagTemplate

/-- Holds where the nodes cover a buffer from `start` to `stop` without gaps. -/
def Tiles : Nat → List Node → Nat → Prop
  | start, [], stop => start = stop
  | start, node :: nodes, stop =>
    node.source.start = start ∧ start < node.source.stop ∧ Tiles node.source.stop nodes stop

structure Covers (buffer : Bytes) (nodes : List Node) : Prop where
  tiles : Tiles 0 nodes buffer.length
  joined : (nodes.flatMap fun node => node.source.slice buffer) = buffer

/-- Holds where one comma, and spaces behind it, lie between two places. -/
def Separated (buffer : Bytes) (stop start : Nat) : Prop :=
  ∃ gap, Blank gap ∧ buffer.slice stop start = Byte.comma :: gap

/-- Holds of parameters that stand one behind the other from `low` to `high`. -/
structure InOrder (buffer : Bytes) (low high : Nat) (ps : List Node) : Prop where
  within : ∀ p ∈ ps, low ≤ p.source.start ∧ p.source.start < p.source.stop ∧ p.source.stop ≤ high
  disjoint : ps.Pairwise fun p q => p.source.stop < q.source.start
  separated : ps.IsChain fun p q => Separated buffer p.source.stop q.source.start

/-- Holds where the parts of a node lie in its stretch as they should. -/
def Nests (sigil : Byte) (buffer : Bytes) : Node → Prop
  | .raw data s => s.slice buffer = escape sigil data
  | .tag (.identifier name n) ps _ s =>
    n.start = s.start + 1 ∧ n.stop = n.start + name.length ∧
      InOrder buffer (n.stop + 1) (s.stop - 1) ps
  | .tag _ _ _ _ => False
  | .expression _ left right s =>
    left.source.start = s.start ∧ left.source.stop < right.source.start ∧
      right.source.stop = s.stop
  | .identifier _ _ | .int _ _ | .double _ _ | .string _ _ => True

theorem Bytes.length_ascii (bytes : Bytes) : bytes.ascii.length = bytes.length := by
  rw [ascii, String.length_ofList, List.length_map]

/-- The last of the nodes that tile a stretch ends where the stretch does. -/
theorem Tiles.stop_eq {start stop : Nat} {nodes : List Node} (h : Tiles start nodes stop) :
    (nodes.getLast?.map fun node => node.source.stop).getD start = stop := by
  induction nodes generalizing start with
  | nil => exact h
  | cons node nodes ih =>
    obtain ⟨-, -, hNodes⟩ := h
    rw [← ih hNodes, List.getLast?_cons]
    cases nodes.getLast? <;> rfl

namespace InOrder

variable {buffer : Bytes} {low high : Nat} {p : Node} {ps : List Node}

theorem nil : InOrder buffer low high [] :=
  ⟨List.forall_mem_nil _, List.Pairwise.nil, List.IsChain.nil⟩

theorem cons {start stop : Position} (hSource : p.source = start.to stop)
    (hLow : low ≤ start.offset) (hPositive : start.offset < stop.offset)
    (hHigh : stop.offset ≤ high) (h : InOrder buffer (stop.offset + 1) high ps)
    (hNext : ∀ q ∈ ps.head?, Separated buffer stop.offset q.source.start) :
    InOrder buffer low high (p :: ps) where
  within := by
    refine List.forall_mem_cons.mpr ⟨hSource ▸ ⟨hLow, hPositive, hHigh⟩, fun q hq => ?_⟩
    obtain ⟨hStart, hQ, hStop⟩ := h.within q hq
    exact ⟨by omega, hQ, hStop⟩
  disjoint := by
    refine List.pairwise_cons.mpr ⟨fun q hq => ?_, h.disjoint⟩
    exact hSource ▸ (h.within q hq).1
  separated := List.isChain_cons.mpr ⟨hSource ▸ hNext, h.separated⟩

theorem mono {high' : Nat} (h : InOrder buffer low high ps) (hHigh : high ≤ high') :
    InOrder buffer low high' ps where
  within p hp := by
    obtain ⟨hStart, hP, hStop⟩ := h.within p hp
    exact ⟨hStart, hP, hStop.trans hHigh⟩
  disjoint := h.disjoint
  separated := h.separated

end InOrder

namespace Template

open Scan

variable {options : Options} {nested : Bytes → Reading} {buffer text : Bytes} {c c' : Cursor}
  {node : Node} {nodes list : List Node}

theorem tiles_of_passes (h : Passes options nested c nodes c') :
    Tiles c.position.offset nodes c'.position.offset := by
  induction h with
  | done => rfl
  | element hElement _ ih =>
    obtain ⟨text, hRead⟩ := (advances_element options nested).reads hElement
    have hLess := length_lt_of_element hElement
    have hLength := hRead.length_eq
    have hOffset := hRead.offset_eq
    rw [Tiles, source_of_element hElement]
    exact ⟨rfl, by dsimp only [Position.to]; omega, ih⟩

theorem joined_of_passes (h : Passes options nested c nodes c') (hOver : Cursor.Over buffer c)
    (hRead : c.Reads text c') : (nodes.flatMap fun node => node.source.slice buffer) = text := by
  induction h generalizing text with
  | done c => exact (hRead.text_eq (Cursor.Reads.refl c)).symm
  | element hElement hOthers ih =>
    obtain ⟨first, hFirst⟩ := (advances_element options nested).reads hElement
    obtain ⟨others, hRest⟩ := hOthers.reads
    obtain rfl := hRead.text_eq (hFirst.trans hRest)
    rw [List.flatMap_cons, ih (hOver.reads hFirst) hRest, source_of_element hElement]
    exact congrArg (· ++ others) (hOver.slice hFirst)

theorem covers_of_read (h : (read options buffer).result = .ok nodes) : Covers buffer nodes := by
  have hPasses := read_ok_iff_passes.mp h
  have hRead := Cursor.reads_start buffer
  rw [Position.advance_origin] at hRead
  exact ⟨tiles_of_passes hPasses, joined_of_passes hPasses (Cursor.over_start buffer) hRead⟩

theorem nests_parameter (h : Gives (parameter nested) c (some node) c') (sigil : Byte) :
    Nests sigil buffer node := by
  obtain ⟨gap, d, b, -, -, -, -, h⟩ := gives_parameter_some_iff.mp h
  rcases h with ⟨-, h⟩ | ⟨-, h⟩ | ⟨-, h⟩
  · obtain ⟨_, _, _, -, -, -, rfl⟩ := gives_stringParameter_iff.mp h
    trivial
  · obtain ⟨numeral, -, rfl⟩ := gives_numberParameter_iff.mp h
    cases numeral <;> trivial
  · obtain ⟨word, gap', c₁, c₂, -, -, -, -, hGap', -, -, h⟩ := gives_wordParameter_iff.mp h
    rcases h with ⟨-, rfl, -⟩ | ⟨operator, right, c₃, hOperator, hRight, rfl⟩
    · trivial
    · obtain ⟨gap'', e, hGap'', -, hSource, -⟩ :=
        source_of_parameter (gives_operand_parameter_iff.mp hRight)
      have hOffset := (hGap'.trans (hOperator.trans hGap'')).offset_eq
      simp only [List.length_append, List.length_singleton] at hOffset
      rw [Nests, hSource]
      refine ⟨rfl, ?_, rfl⟩
      change c₁.position.offset < e.position.offset
      omega

theorem inOrder_moreParameters (hOver : Cursor.Over buffer c)
    (h : Gives (moreParameters nested) c list c') :
    InOrder buffer (c.position.offset + 1) c'.position.offset list ∧
      ∀ q ∈ list.head?, Separated buffer c.position.offset q.source.start := by
  -- Whatever was read last ends at `c`, so the comma in front of the first parameter is its own.
  induction hLength : c.rest.length using Nat.strongRecOn generalizing c list with
  | ind n ih =>
    rcases gives_moreParameters_iff.mp h with
      ⟨-, rfl, -⟩ | ⟨next, more, d, d', hComma, hNext, hMore, rfl⟩
    · exact ⟨.nil, nofun⟩
    · obtain ⟨text, hRead⟩ := (advances_parameter nested).reads hNext
      obtain ⟨others, hOthers⟩ := (advances_moreParameters nested).reads hMore
      obtain ⟨gap, e, hGap, hBlank, hSource, hPositive⟩ := source_of_parameter hNext
      have hCommaOffset := (hComma.trans hGap).offset_eq
      have hOthersOffset := hOthers.offset_eq
      have hLess : d'.rest.length < n := by
        have hCommaLength := hComma.length_eq
        have hReadLength := hRead.length_eq
        rw [List.length_singleton] at hCommaLength
        omega
      obtain ⟨hOrder, hHead⟩ := ih _ hLess (hOver.reads (hComma.trans hRead)) hMore rfl
      rw [List.length_append, List.length_singleton] at hCommaOffset
      constructor
      · exact .cons hSource (by omega) hPositive (by omega) hOrder hHead
      · rintro _ ⟨⟩
        rw [hSource]
        exact ⟨gap, hBlank, hOver.slice (hComma.trans hGap)⟩

theorem inOrder_parameterList (hOver : Cursor.Over buffer c)
    (h : Gives (parameterList nested) c list c') :
    InOrder buffer c.position.offset c'.position.offset list := by
  rcases gives_parameterList_iff.mp h with ⟨-, rfl⟩ | ⟨first, more, d, hFirst, hMore, rfl⟩
  · exact .nil
  · obtain ⟨text, hRead⟩ := (advances_parameter nested).reads hFirst
    obtain ⟨others, hOthers⟩ := (advances_moreParameters nested).reads hMore
    obtain ⟨gap, e, hGap, -, hSource, hPositive⟩ := source_of_parameter hFirst
    have hGapOffset := hGap.offset_eq
    have hOthersOffset := hOthers.offset_eq
    obtain ⟨hOrder, hHead⟩ := inOrder_moreParameters (hOver.reads hRead) hMore
    exact .cons hSource (by omega) hPositive (by omega) hOrder hHead

theorem nests_tag (hOver : Cursor.Over buffer c) (h : Gives (tag options nested) c node c') :
    Nests options.sigil.byte buffer node := by
  obtain ⟨name, gap, c₁, c₂, c₃, c₄, ps, content, hSigil, hName, -, hParameters, hGap, -, -,
    hContent, rfl⟩ := gives_tag_iff.mp h
  obtain ⟨d, d', hOpen, hList, hClose⟩ := gives_parameters_iff.mp hParameters
  obtain ⟨outer, hOuter⟩ := (advances_body? options nested).reads hContent
  have hOrder := inOrder_parameterList (hOver.reads (hSigil.trans (hName.trans hOpen))) hList
  have hStop := (hClose.trans (hGap.trans hOuter)).offset_eq
  simp only [List.length_append, List.length_singleton] at hStop
  refine ⟨hSigil.offset_eq, ?_, ?_⟩
  · rw [Bytes.length_ascii]
    exact hName.offset_eq
  · rw [hOpen.offset_eq] at hOrder
    apply hOrder.mono
    dsimp only [Position.to]
    omega

theorem nests_of_given (h : Given options buffer node) :
    Nests options.sigil.byte buffer node := by
  cases h with
  | identifier hOver h =>
    obtain ⟨_, -, -, -, rfl⟩ := gives_identifier_iff.mp h
    trivial
  | parameter hOver h => exact nests_parameter h options.sigil.byte
  | tag hOver h => exact nests_tag hOver h
  | raw hOver h =>
    obtain ⟨data, hRead, -, rfl⟩ := gives_raw_iff.mp h
    exact hOver.slice hRead

/-- The stretches of all templates that are read tile their buffers, and those of the parts of a
node nest in its own. -/
theorem stretches_of_read (h : (read options buffer).result = .ok nodes) :
    ThroughoutTemplate options (Nests options.sigil.byte) Covers buffer nodes :=
  throughout_read (fun _ _ => nests_of_given) (fun _ _ => covers_of_read) h

/-- An escaped sigil in front of a tag with two parameters and a body. -/
theorem stretches_of_read_string_and_body :
    (read Options.standard [0x5C, 0x23, 0x23, 0x61, 0x28, 0x62, 0x3C, 0x31, 0x2C, 0x20, 0x22, 0x5C,
        0x22, 0x63, 0x22, 0x29, 0x7B, 0x23, 0x64, 0x28, 0x29, 0x7D]).result =
      .ok [.raw [0x23] ⟨1, 1, 0, 2⟩,
        .tag (.identifier "a" ⟨1, 4, 3, 4⟩)
          [.expression .lessThan (.identifier "b" ⟨1, 6, 5, 6⟩) (.int 1 ⟨1, 8, 7, 8⟩) ⟨1, 6, 5, 8⟩,
            .string [.raw [0x22, 0x63] ⟨1, 1, 0, 2⟩] ⟨1, 11, 10, 15⟩]
          (some [.tag (.identifier "d" ⟨1, 2, 1, 2⟩) [] none ⟨1, 1, 0, 4⟩]) ⟨1, 3, 2, 22⟩] ∧
      ThroughoutTemplate Options.standard (Nests 0x23) Covers
        [0x5C, 0x23, 0x23, 0x61, 0x28, 0x62, 0x3C, 0x31, 0x2C, 0x20, 0x22, 0x5C, 0x22, 0x63, 0x22,
          0x29, 0x7B, 0x23, 0x64, 0x28, 0x29, 0x7D]
        [.raw [0x23] ⟨1, 1, 0, 2⟩,
          .tag (.identifier "a" ⟨1, 4, 3, 4⟩)
            [.expression .lessThan (.identifier "b" ⟨1, 6, 5, 6⟩) (.int 1 ⟨1, 8, 7, 8⟩)
                ⟨1, 6, 5, 8⟩,
              .string [.raw [0x22, 0x63] ⟨1, 1, 0, 2⟩] ⟨1, 11, 10, 15⟩]
            (some [.tag (.identifier "d" ⟨1, 2, 1, 2⟩) [] none ⟨1, 1, 0, 4⟩]) ⟨1, 3, 2, 22⟩] := by
  have h : (read Options.standard [0x5C, 0x23, 0x23, 0x61, 0x28, 0x62, 0x3C, 0x31, 0x2C, 0x20, 0x22,
      0x5C, 0x22, 0x63, 0x22, 0x29, 0x7B, 0x23, 0x64, 0x28, 0x29, 0x7D]).result =
    .ok [.raw [0x23] ⟨1, 1, 0, 2⟩,
      .tag (.identifier "a" ⟨1, 4, 3, 4⟩)
        [.expression .lessThan (.identifier "b" ⟨1, 6, 5, 6⟩) (.int 1 ⟨1, 8, 7, 8⟩) ⟨1, 6, 5, 8⟩,
          .string [.raw [0x22, 0x63] ⟨1, 1, 0, 2⟩] ⟨1, 11, 10, 15⟩]
        (some [.tag (.identifier "d" ⟨1, 2, 1, 2⟩) [] none ⟨1, 1, 0, 4⟩]) ⟨1, 3, 2, 22⟩] := by
    with_unfolding_all rfl
  exact ⟨h, stretches_of_read h⟩

end Template

end TagTemplate
