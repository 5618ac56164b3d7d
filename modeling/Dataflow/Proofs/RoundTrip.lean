import Dataflow.Proofs.Outlines
import Dataflow.Proofs.ReadingBack
import Dataflow.Schema.Decode
import Dataflow.Schema.Encode

/-! # Programs through their JSON text

Every part of a program is read back from what is written for it. A graph is read back as the one
that is built from its outline, and that has the same outline again, so a program that has been
read is written as it was before.
-/
namespace Dataflow

open Json

theorem Register.reads (r : Register) : Reads Register.reader r.toJson r :=
  (reads_text r.name).map Register.mk

theorem Operand.reads (o : Operand) : Reads Operand.reader o.toJson o := by
  cases o with
  | register r => exact Variant.reads_content rfl (r.reads.map register)
  | constant n => exact Variant.reads_content rfl ((reads_signed n).map constant)

theorem BinaryOperator.reads (op : BinaryOperator) : Reads BinaryOperator.reader op.toJson op := by
  cases op <;> exact Variant.reads_bare rfl

theorem reads_ofOption {α : Type} {r : Reader α} {encode : α → Json}
    (h : ∀ a, Reads r (encode a) a) (hnull : ∀ a, encode a ≠ .null) (o : Option α) :
    Reads (Reader.optional r) (ofOption encode o) o := by
  cases o with
  | none => exact reads_none r
  | some a => exact (h a).present (hnull a)

theorem reads_ofList {α : Type} {r : Reader α} {encode : α → Json}
    (h : ∀ a, Reads r (encode a) a) (l : List α) : Reads (Reader.list r) (ofList encode l) l := by
  refine reads_list ?_
  rw [List.forall₂_map_left_iff]
  exact List.forall₂_same.2 fun a _ => h a

theorem Operand.toJson_ne_null (o : Operand) : o.toJson ≠ .null := by
  cases o <;> exact fun h => by cases h

namespace Operation

theorem holds_move (dst : Register) (src : Operand) :
    moveFields.Holds [("dst", dst.toJson), ("src", src.toJson)] (move dst src) :=
  ((Bundle.holds_ofField (.required "dst" Register.reader) dst.reads).and
    (Bundle.holds_ofField (.required "src" Operand.reader) src.reads) (by simp)).map _

theorem holds_new (dst : Register) (className : String) :
    newFields.Holds [("dst", dst.toJson), ("class", .text className)] (new dst className) :=
  ((Bundle.holds_ofField (.required "dst" Register.reader) dst.reads).and
    (Bundle.holds_ofField (.required "class" Reader.text) (reads_text className)) (by simp)).map _

theorem holds_nullCheck (src : Register) :
    nullCheckFields.Holds [("src", src.toJson)] (nullCheck src) :=
  (Bundle.holds_ofField (.required "src" Register.reader) src.reads).map _

theorem holds_binary (op : BinaryOperator) (dst : Register) (lhs rhs : Operand) :
    binaryFields.Holds
      [("op", op.toJson), ("dst", dst.toJson), ("lhs", lhs.toJson), ("rhs", rhs.toJson)]
      (binary op dst lhs rhs) :=
  (((Bundle.holds_ofField (.required "op" BinaryOperator.reader) op.reads).and
    (Bundle.holds_ofField (.required "dst" Register.reader) dst.reads) (by simp)).and
      ((Bundle.holds_ofField (.required "lhs" Operand.reader) lhs.reads).and
        (Bundle.holds_ofField (.required "rhs" Operand.reader) rhs.reads) (by simp))
      (by simp)).map _

theorem holds_load (dst base : Register) (field : String) :
    loadFields.Holds [("dst", dst.toJson), ("base", base.toJson), ("field", .text field)]
      (load dst base field) :=
  ((Bundle.holds_ofField (.required "dst" Register.reader) dst.reads).and
    ((Bundle.holds_ofField (.required "base" Register.reader) base.reads).and
      (Bundle.holds_ofField (.required "field" Reader.text) (reads_text field)) (by simp))
    (by simp)).map _

theorem holds_store (base : Register) (field : String) (src : Operand) :
    storeFields.Holds [("base", base.toJson), ("field", .text field), ("src", src.toJson)]
      (store base field src) :=
  ((Bundle.holds_ofField (.required "base" Register.reader) base.reads).and
    ((Bundle.holds_ofField (.required "field" Reader.text) (reads_text field)).and
      (Bundle.holds_ofField (.required "src" Operand.reader) src.reads) (by simp))
    (by simp)).map _

theorem holds_call (dst : Option Register) (target : String) (arguments : List Operand) :
    callFields.Holds [("dst", ofOption Register.toJson dst), ("target", .text target),
      ("arguments", ofList Operand.toJson arguments)] (call dst target arguments) :=
  ((Bundle.holds_ofField (.nullable "dst" Register.reader)
      (reads_ofOption Register.reads (fun _ h => by cases h) dst)).and
    ((Bundle.holds_ofField (.required "target" Reader.text) (reads_text target)).and
      (Bundle.holds_ofField (.required "arguments" (Reader.list Operand.reader))
        (reads_ofList Operand.reads arguments)) (by simp))
    (by simp)).map _

theorem holds_branch (condition : Option Operand) :
    branchFields.Holds [("condition", ofOption Operand.toJson condition)] (branch condition) :=
  (Bundle.holds_ofField (.nullable "condition" Operand.reader)
    (reads_ofOption Operand.reads Operand.toJson_ne_null condition)).map _

theorem reads (o : Operation) : Reads Operation.reader o.toJson o := by
  cases o with
  | move dst src => exact Variant.reads_content rfl ((holds_move dst src).reads _)
  | new dst className => exact Variant.reads_content rfl ((holds_new dst className).reads _)
  | nullCheck src => exact Variant.reads_content rfl ((holds_nullCheck src).reads _)
  | binary op dst lhs rhs => exact Variant.reads_content rfl ((holds_binary op dst lhs rhs).reads _)
  | load dst base field => exact Variant.reads_content rfl ((holds_load dst base field).reads _)
  | store base field src => exact Variant.reads_content rfl ((holds_store base field src).reads _)
  | call dst target arguments =>
    exact Variant.reads_content rfl ((holds_call dst target arguments).reads _)
  | branch condition => exact Variant.reads_content rfl ((holds_branch condition).reads _)
  | ret result =>
    exact Variant.reads_content rfl
      ((reads_ofOption Operand.reads Operand.toJson_ne_null result).map ret)
  | nop => exact Variant.reads_bare rfl

end Operation

theorem Quad.reads (q : Quad) : Reads Quad.reader q.toJson q :=
  (((Bundle.holds_ofField (.required "id" Reader.unsigned) (reads_unsigned q.id)).and
    (Bundle.holds_ofField (.required "operation" Operation.reader) q.operation.reads)
    (by simp)).map _).reads _

theorem Block.reads (b : Block) : Reads Block.reader b.toJson b :=
  (((Bundle.holds_ofField (.required "index" Reader.unsigned) (reads_unsigned b.index)).and
    (Bundle.holds_ofField (.required "quads" (Reader.list Quad.reader))
      (reads_ofList Quad.reads b.quads)) (by simp)).map _).reads _

theorem Edge.reads (e : Edge) : Reads Edge.reader e.toJson e :=
  (((Bundle.holds_ofField (.required "head" Reader.unsigned) (reads_unsigned e.head)).and
    (Bundle.holds_ofField (.required "tail" Reader.unsigned) (reads_unsigned e.tail))
    (by simp)).map _).reads _

theorem Neighbor.reads (n : Neighbor) : Reads Neighbor.reader n.toJson n := by
  cases n with
  | entry => exact Variant.reads_bare rfl
  | quad id => exact Variant.reads_content rfl ((reads_unsigned id).map quad)
  | exit => exact Variant.reads_bare rfl

namespace FlowGraph

theorem Outline.holds (o : Outline) : Outline.fields.Holds
    [("entry", ofOption ofUInt64 o.entry), ("blocks", ofList Block.toJson o.blocks),
      ("edges", ofList Edge.toJson o.edges)] o :=
  ((Bundle.holds_ofField (.nullable "entry" Reader.unsigned)
      (reads_ofOption reads_unsigned (fun _ h => by cases h) o.entry)).and
    ((Bundle.holds_ofField (.required "blocks" (Reader.list Block.reader))
      (reads_ofList Block.reads o.blocks)).and
      (Bundle.holds_ofField (.required "edges" (Reader.list Edge.reader))
        (reads_ofList Edge.reads o.edges)) (by simp))
    (by simp)).map _

/-- A graph is read back up to its nodes. -/
theorem Coherent.exists_reads {g : FlowGraph} (hg : g.Coherent) :
    ∃ nodes, Reads FlowGraph.reader g.toJson (g.withNodes nodes) := by
  obtain ⟨nodes, hnodes⟩ := hg.exists_ofOutline
  refine ⟨nodes, fun style depth fuel blanks rest hb he hf => ?_⟩
  have houtline := (Outline.holds g.outline).reads "struct SerializedGraph"
  refine (houtline style depth hb he hf).bind ?_
  rw [hnodes]
  exact Reader.takes_pure _

end FlowGraph

/-- The routines agree in all that is written of them. -/
structure Routine.SameContent (f h : Routine) : Prop where
  name : h.name = f.name
  parameters : h.parameters = f.parameters
  entry : h.graph.entry = f.graph.entry
  blocks : h.graph.blocks = f.graph.blocks
  edges : h.graph.edges = f.graph.edges

theorem Routine.SameContent.toJson_eq {f h : Routine} (hs : f.SameContent h) :
    h.toJson = f.toJson := by
  have houtline : h.graph.outline = f.graph.outline := by
    unfold FlowGraph.outline FlowGraph.blockList
    rw [hs.entry, hs.blocks, hs.edges]
  unfold Routine.toJson FlowGraph.toJson
  rw [hs.name, hs.parameters, houtline]

theorem Routine.exists_reads {f : Routine} (hf : f.graph.Coherent) :
    ∃ h, Reads Routine.reader f.toJson h ∧ f.SameContent h := by
  obtain ⟨nodes, hgraph⟩ := hf.exists_reads
  refine ⟨⟨f.name, f.parameters, f.graph.withNodes nodes⟩, ?_, ⟨rfl, rfl, rfl, rfl, rfl⟩⟩
  exact (((Bundle.holds_ofField (.required "name" Reader.text) (reads_text f.name)).and
    ((Bundle.holds_ofField (.withDefault "parameters" (Reader.list Register.reader) [])
      (reads_ofList Register.reads f.parameters)).and
      (Bundle.holds_ofField (.required "control_flow_graph" FlowGraph.reader) hgraph) (by simp))
    (by simp)).map _).reads _

theorem Routine.exists_reads_all {fs : List Routine} (hfs : ∀ f ∈ fs, f.graph.Coherent) :
    ∃ hs, List.Forall₂ (Reads Routine.reader) (fs.map Routine.toJson) hs ∧
      List.Forall₂ Routine.SameContent fs hs := by
  induction fs with
  | nil => exact ⟨[], .nil, .nil⟩
  | cons f fs ih =>
    obtain ⟨hf, hfs⟩ := List.forall_mem_cons.1 hfs
    obtain ⟨h, hread, hsame⟩ := Routine.exists_reads hf
    obtain ⟨hs, hreads, hsames⟩ := ih hfs
    exact ⟨h :: hs, .cons hread hreads, .cons hsame hsames⟩

theorem Routine.map_toJson_eq {fs hs : List Routine} (h : List.Forall₂ Routine.SameContent fs hs) :
    hs.map Routine.toJson = fs.map Routine.toJson := by
  induction h with
  | nil => rfl
  | cons hsame _ ih => rw [List.map_cons, List.map_cons, hsame.toJson_eq, ih]

/-- A program over graphs that have been built is read back from its text with all its routines,
and is then written as the same text. Parts of programs are read back as they were. -/
theorem json_text_reads_back (p : Program) (built : ∀ f ∈ p.routines, f.graph.Built) :
    (∃ q, Program.ofText p.toJson.pretty = .ok q ∧
        List.Forall₂ Routine.SameContent p.routines q.routines ∧
        q.toJson.pretty = p.toJson.pretty) ∧
      (∀ r : Register, Register.reader.run r.toJson.compact = .ok r) ∧
      (∀ o : Operand, Operand.reader.run o.toJson.compact = .ok o) ∧
      (∀ op : BinaryOperator, BinaryOperator.reader.run op.toJson.compact = .ok op) ∧
      (∀ o : Operation, Operation.reader.run o.toJson.compact = .ok o) ∧
      (∀ q : Quad, Quad.reader.run q.toJson.compact = .ok q) ∧
      (∀ b : Block, Block.reader.run b.toJson.compact = .ok b) ∧
      (∀ e : Edge, Edge.reader.run e.toJson.compact = .ok e) ∧
      ∀ n : Neighbor, Neighbor.reader.run n.toJson.compact = .ok n := by
  refine ⟨?_, fun r => r.reads.run.1, fun o => o.reads.run.1, fun op => op.reads.run.1,
    fun o => o.reads.run.1, fun q => q.reads.run.1, fun b => b.reads.run.1, fun e => e.reads.run.1,
    fun n => n.reads.run.1⟩
  obtain ⟨hs, hreads, hsame⟩ := Routine.exists_reads_all fun f hf => (built f hf).coherent
  have hprogram : Reads Program.reader p.toJson ⟨hs⟩ :=
    ((Bundle.holds_ofField (.required "functions" (Reader.list Routine.reader))
      (reads_list hreads)).map Program.mk).reads _
  have htext : Program.toJson ⟨hs⟩ = p.toJson := by
    unfold Program.toJson ofList
    rw [Routine.map_toJson_eq hsame]
  exact ⟨⟨hs⟩, hprogram.run.2, hsame, congrArg Json.pretty htext⟩

/-- The greatest identity, the least constant, and names with a quote, a control and a character
outside the first plane. -/
theorem json_text_reads_back_at_limits : ∃ g, FlowGraph.ofOutline ⟨some 7,
      [⟨7, [⟨18446744073709551615, .move ⟨"\"\x01"⟩ (.constant Int64.minValue)⟩]⟩], [⟨7, 7⟩]⟩ =
        .ok g ∧
    ∃ q, Program.ofText (Program.toJson ⟨[⟨"𝄞\n", [], g⟩]⟩).pretty = .ok q ∧
      List.Forall₂ Routine.SameContent [⟨"𝄞\n", [], g⟩] q.routines := by
  obtain ⟨g, hg⟩ : ∃ g, FlowGraph.ofOutline ⟨some 7,
      [⟨7, [⟨18446744073709551615, .move ⟨"\"\x01"⟩ (.constant Int64.minValue)⟩]⟩], [⟨7, 7⟩]⟩ =
        .ok g := ⟨_, rfl⟩
  have hbuilt : ∀ f ∈ [(⟨"𝄞\n", [], g⟩ : Routine)], f.graph.Built := by
    intro f hf
    rw [List.mem_singleton.1 hf]
    exact FlowGraph.built_ofOutline hg
  obtain ⟨⟨q, hq, hsame, _⟩, _⟩ := json_text_reads_back ⟨[⟨"𝄞\n", [], g⟩]⟩ hbuilt
  exact ⟨g, hg, q, hq, hsame⟩

end Dataflow
