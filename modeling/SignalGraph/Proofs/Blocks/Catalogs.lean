import SignalGraph.Proofs.Blocks.Placement

/-!
# Stocked catalogs

What the blocks of a catalog are like that holds the built-in blocks and any number of custom ones:
the terminals of a built-in block are those of its shape, in order, with the control terminals
around them.
-/

namespace SignalGraph

def WireType.isValue : WireType → Bool
  | value _ => true
  | _ => false

/-- Whether a type that belongs to a kind is that of a value.  Kinds for other types can be written
down, but no catalog numbers them. -/
def Kind.isPlain : Kind → Bool
  | expression (.getVariable t) => t.isValue
  | expression (.list t) => t.isValue
  | statement (.inspect t) => t.isValue
  | statement (.setVariable t) => t.isValue
  | statement (.setPointer t) => t.isValue
  | _ => true

theorem WireType.isValue_iff {t : WireType} : t.isValue = true ↔ ∃ b, t = .value b := by
  cases t with
  | value b => exact ⟨fun _ => ⟨b, rfl⟩, fun _ => rfl⟩
  | void => exact ⟨(fun h => nomatch h), (fun ⟨_, h⟩ => nomatch h)⟩
  | pointer b => exact ⟨(fun h => nomatch h), (fun ⟨_, h⟩ => nomatch h)⟩

theorem Stock.isPlain_of_mem : ∀ entry ∈ Stock.all, entry.2.isPlain = true := by decide +kernel

namespace Shape

def dataOutputs (s : Shape) : List Pin := s.outputs.filter (·.type ≠ .void)

def branches (s : Shape) : List Pin := s.outputs.filter (·.type = .void)

/-- Inputs carry data; control comes in by the block's own terminal only. -/
def HasDataInputs (s : Shape) : Prop := ∀ pin ∈ s.inputs, pin.type ≠ .void

instance (s : Shape) : Decidable s.HasDataInputs :=
  inferInstanceAs (Decidable (∀ pin ∈ s.inputs, pin.type ≠ .void))

end Shape

theorem Expression.hasDataInputs : ∀ x : Expression, (Kind.expression x).isPlain = true →
    x.shape.HasDataInputs ∧ x.shape.active = false ∧ x.shape.branches = []
  | .literal l, _ => by
    rcases l with _ | _ | _ | (_ | _) <;> decide
  | .operation op, _ => by cases op <;> decide
  | .routine r, _ => by cases r <;> decide
  | .query q, _ => by cases q <;> decide
  | .currentFrame, _ => by decide
  | .and, _ => by decide
  | .or, _ => by decide
  | .getVariable t, h => by
    obtain ⟨b, rfl⟩ := WireType.isValue_iff.mp h
    cases b <;> decide
  | .list t, h => by
    obtain ⟨b, rfl⟩ := WireType.isValue_iff.mp h
    cases b <;> decide

theorem Statement.hasDataInputs : ∀ s : Statement, (Kind.statement s).isPlain = true →
    s.shape.HasDataInputs ∧ s.shape.active = true
  | .effect e, _ => by cases e <;> decide
  | .inspect t, h => by
    obtain ⟨b, rfl⟩ := WireType.isValue_iff.mp h
    cases b <;> decide
  | .setVariable t, h => by
    obtain ⟨b, rfl⟩ := WireType.isValue_iff.mp h
    cases b <;> decide
  | .setPointer t, h => by
    obtain ⟨b, rfl⟩ := WireType.isValue_iff.mp h
    cases b <;> decide
  | .menuItem, _ | .ifThen, _ | .playSensor, _ | .lateUpdate, _ | .boxArtSensor, _ => by decide
  | .touchSensor, _ | .swipeSensor, _ | .button, _ | .collision, _ | .loop, _ => by decide
  | .increment, _ | .decrement, _ => by decide

theorem Kind.hasDataInputs {k : Kind} (h : k.isPlain = true) : k.shape.HasDataInputs := by
  cases k with
  | comment => decide
  | expression x => exact (Expression.hasDataInputs x h).1
  | statement s => exact (Statement.hasDataInputs s h).1

/-- A data output of a statement shows a slot, or one component of a vector in it. -/
theorem Statement.slot_of_output : ∀ {s : Statement} {output : Nat} {pin : Pin},
    (Kind.statement s).isPlain = true → s.shape.dataOutputs[output]? = some pin →
    ∃ i component purpose b, s.outputSlot output = some (i, component) ∧
      s.slots[i]? = some (purpose, b) ∧ b ≠ .rot ∧
      ((component = none ∧ pin.type = .value b) ∨
        ∃ k, k < 3 ∧ component = some k ∧ b = .vec3 ∧ pin.type = .value .float) := by
  intro s output pin hs hpin
  match s, output, hpin with
  | .effect e, 0, hpin =>
    cases e <;> cases hpin <;>
      exact ⟨0, none, _, _, rfl, rfl, (fun h => nomatch h), .inl ⟨rfl, rfl⟩⟩
  | .effect e, output + 1, hpin => cases e <;> exact nomatch hpin
  | .touchSensor, 0, hpin =>
    cases hpin
    exact ⟨0, some 0, _, _, rfl, rfl, (fun h => nomatch h), .inr ⟨0, by decide, rfl, rfl, rfl⟩⟩
  | .touchSensor, 1, hpin =>
    cases hpin
    exact ⟨0, some 1, _, _, rfl, rfl, (fun h => nomatch h), .inr ⟨1, by decide, rfl, rfl, rfl⟩⟩
  | .swipeSensor, 0, hpin | .loop, 0, hpin =>
    cases hpin
    exact ⟨0, none, _, _, rfl, rfl, (fun h => nomatch h), .inl ⟨rfl, rfl⟩⟩
  | .collision, 0, hpin | .collision, 1, hpin | .collision, 2, hpin =>
    cases hpin
    exact ⟨_, none, _, _, rfl, rfl, (fun h => nomatch h), .inl ⟨rfl, rfl⟩⟩

/-! ## Built-in blocks -/

namespace Block

open Layout (role)

variable {b : Block} {id : KindId} {k : Kind}

structure Builtin (b : Block) (k : Kind) : Prop where
  placed : b.Placed
  active : b.active = k.shape.active
  template : b.template = if k = .comment then .inert else .builtin k
  optional : b.optional = k.shape.inputs.map (·.optional)
  roles : b.terminals.map role =
    (if k.shape.active then [(WireType.void, Direction.input)] else []) ++
      (k.shape.inputs.map (fun pin => (pin.type, Direction.input)) ++
        k.shape.outputs.map (fun pin => (pin.type, Direction.output))) ++
      (if k.shape.active then [(WireType.void, Direction.output)] else [])

theorem builtin_of_ofKind (h : ofKind id k = .ok b) : b.Builtin k := by
  unfold ofKind at h
  obtain ⟨ts, hts, h⟩ := Outcome.bind_eq_ok.mp h
  obtain ⟨hfits, rfl⟩ := Layout.ok_iff.mp hts
  cases h
  refine ⟨⟨_, hfits, rfl⟩, rfl, rfl, rfl, ?_⟩
  rw [Layout.map_role_terminals]
  simp [Function.comp_def]

theorem placed_of_ofCustom {decl : CustomBlock} (h : ofCustom decl = .ok b) :
    b.Placed ∧ b.template = .custom decl.graph.id := by
  unfold ofCustom at h
  obtain ⟨ts, hts, h⟩ := Outcome.bind_eq_ok.mp h
  obtain ⟨hfits, rfl⟩ := Layout.ok_iff.mp hts
  cases h
  exact ⟨⟨_, hfits, rfl⟩, rfl⟩

/-- A group of terminals is cut out by their roles alone. -/
theorem map_role_group (b : Block) (dir : Direction) (control : Bool) :
    (b.group dir control).map role =
      (b.terminals.map role).filter fun r => r.2 = dir && (decide (r.1 = .void)) == control := by
  rw [group, List.filter_map]
  rfl

theorem map_type_group (b : Block) (dir : Direction) (control : Bool) :
    (b.group dir control).map (·.type) = ((b.group dir control).map role).map (·.1) := by
  rw [List.map_map]
  rfl

theorem filter_pins {pins : List Pin} {dir dir' : Direction} {control : Bool} :
    ((pins.map fun pin => (pin.type, dir)).filter fun r =>
        r.2 = dir' && (decide (r.1 = .void)) == control).map (·.1) =
      if dir = dir' then
        (pins.filter fun pin => decide (pin.type = .void) == control).map (·.type)
      else [] := by
  induction pins with
  | nil => simp
  | cons pin rest ih =>
    by_cases hdir : dir = dir'
    · subst hdir
      simp only [if_true] at ih
      by_cases hc : (decide (pin.type = .void)) == control
      · simp [hc, ← ih]
      · simp [hc, ← ih]
    · simp [hdir]

theorem map_type_dataInputs (h : b.Builtin k) (hk : k.isPlain = true) :
    b.dataInputs.map (·.type) = k.shape.inputs.map (·.type) := by
  have hdata : k.shape.inputs.filter (fun pin => decide (pin.type = .void) == false) =
      k.shape.inputs :=
    List.filter_eq_self.mpr fun pin hpin => by simp [Kind.hasDataInputs hk pin hpin]
  rw [dataInputs, map_type_group, map_role_group, h.roles]
  simp only [List.filter_append, List.map_append, filter_pins, if_true, hdata]
  cases k.shape.active <;> simp

theorem exists_dataInput (h : b.Builtin k) (hk : k.isPlain = true) {i : Nat} {pin : Pin}
    (hpin : k.shape.inputs[i]? = some pin) :
    ∃ t, b.dataInputs[i]? = some t ∧ t.type = pin.type := by
  refine Option.map_eq_some_iff.mp ?_
  rw [← List.getElem?_map, map_type_dataInputs h hk, List.getElem?_map, hpin]
  rfl

theorem map_type_dataOutputs (h : b.Builtin k) :
    b.dataOutputs.map (·.type) = k.shape.dataOutputs.map (·.type) := by
  rw [dataOutputs, map_type_group, map_role_group, h.roles]
  simp only [List.filter_append, List.map_append, filter_pins, if_true, Shape.dataOutputs]
  cases k.shape.active <;> simp

theorem length_controlOutputs (h : b.Builtin k) :
    b.controlOutputs.length = k.shape.branches.length + if k.shape.active then 1 else 0 := by
  have hlen : b.controlOutputs.length = (b.controlOutputs.map (·.type)).length := by simp
  rw [hlen, controlOutputs, map_type_group, map_role_group, h.roles]
  simp only [List.filter_append, List.map_append, filter_pins, if_true, Shape.branches]
  cases k.shape.active <;> simp

/-- Only blocks in the flow of control have a control input. -/
theorem active_of_control (h : b.Builtin k) (hk : k.isPlain = true) {t : Terminal}
    (ht : t ∈ b.terminals) (hdir : t.dir = .input) (htype : t.type = .void) : b.active = true := by
  rw [h.active]
  have hmem : (WireType.void, Direction.input) ∈ b.terminals.map role :=
    List.mem_map.mpr ⟨t, ht, by rw [role, hdir, htype]⟩
  rw [h.roles] at hmem
  cases hactive : k.shape.active with
  | true => rfl
  | false =>
    simp only [hactive, Bool.false_eq_true, if_false, List.nil_append, List.append_nil,
      List.mem_append, List.mem_map, Prod.mk.injEq, reduceCtorEq, and_false, and_true,
      exists_false, or_false] at hmem
    obtain ⟨pin, hpin, hvoid⟩ := hmem
    exact absurd hvoid (Kind.hasDataInputs hk pin hpin)

def Registered (b : Block) : Prop :=
  (∃ k : Kind, k.isPlain = true ∧ b.Builtin k) ∨
    ∃ graph, b.Placed ∧ b.template = .custom graph

/-- A registered block that behaves as a kind is that kind's block. -/
theorem builtin_of_template (h : b.Registered) (ht : b.template = .builtin k) :
    k.isPlain = true ∧ b.Builtin k ∧ k ≠ .comment := by
  rcases h with ⟨k', hplain, hb⟩ | ⟨_, -, hcustom⟩
  · have htemplate := hb.template
    rw [ht] at htemplate
    by_cases hc : k' = .comment
    · simp [hc] at htemplate
    · simp only [hc, if_false, Template.builtin.injEq] at htemplate
      subst htemplate
      exact ⟨hplain, hb, hc⟩
  · rw [hcustom] at ht
    exact nomatch ht

end Block

/-! ## Catalogs -/

namespace Catalog

/-- Catalogs that are made of the built-in blocks and then custom blocks. -/
inductive Stocked : Catalog → Prop
  | stock {c : Catalog} : Catalog.stock = .ok c → Stocked c
  | custom {c c' : Catalog} {decl : CustomBlock} :
    Stocked c → c.addCustom decl = .ok c' → Stocked c'

theorem blocks_of_insert {c c' : Catalog} {b : Block} (h : c.insert b = .ok c') :
    c'.blocks = b :: c.blocks := by
  unfold insert at h
  cases hfind : c.find? b.id with
  | some _ => simp [hfind] at h
  | none =>
    simp only [hfind] at h
    cases h
    rfl

theorem registered_of_addBuiltin {c c' : Catalog} {id : KindId} {k : Kind}
    (hk : k.isPlain = true) (h : c.addBuiltin id k = .ok c')
    (hc : ∀ b ∈ c.blocks, b.Registered) : ∀ b ∈ c'.blocks, b.Registered := by
  unfold addBuiltin at h
  obtain ⟨b, hb, h⟩ := Outcome.bind_eq_ok.mp h
  obtain ⟨c₁, hc₁, h⟩ := Outcome.bind_eq_ok.mp h
  cases h
  intro b' hb'
  rw [show ({ c₁ with numbers := (k, id) :: c₁.numbers } : Catalog).blocks = c₁.blocks from rfl,
    blocks_of_insert hc₁, List.mem_cons] at hb'
  rcases hb' with rfl | hb'
  · exact .inl ⟨k, hk, Block.builtin_of_ofKind hb⟩
  · exact hc b' hb'

theorem Stocked.registered {c : Catalog} (h : c.Stocked) : ∀ b ∈ c.blocks, b.Registered := by
  induction h with
  | stock h =>
    refine Outcome.foldlM_induct (fun c : Catalog => ∀ b ∈ c.blocks, b.Registered) h
      (fun b hb => nomatch hb) ?_
    intro entry hentry c c' hc hadd
    exact registered_of_addBuiltin (Stock.isPlain_of_mem entry hentry) hadd hc
  | @custom c c' decl hc h ih =>
    unfold addCustom at h
    obtain ⟨b, hb, h⟩ := Outcome.bind_eq_ok.mp h
    intro b' hb'
    rw [blocks_of_insert h, List.mem_cons] at hb'
    rcases hb' with rfl | hb'
    · obtain ⟨hplaced, htemplate⟩ := Block.placed_of_ofCustom hb
      exact .inr ⟨decl.graph.id, hplaced, htemplate⟩
    · exact ih b' hb'

theorem Stocked.registered_find {c : Catalog} (h : c.Stocked) {id : KindId} {b : Block}
    (hfind : c.find? id = some b) : b.Registered :=
  h.registered b (List.mem_of_find?_eq_some hfind)

/-- What a computed check says of the stock catalog. -/
theorem exists_stock {α : Type} {f : Catalog → Except Fault α} {q : α → Bool}
    (h : (stock.bind f).toOption.any q = true) :
    ∃ c a, stock = .ok c ∧ Stocked c ∧ f c = .ok a ∧ q a = true := by
  obtain ⟨a, hall, hq⟩ := Outcome.any_toOption.mp h
  obtain ⟨c, hstock, hf⟩ := Outcome.bind_eq_ok.mp hall
  exact ⟨c, a, hstock, .stock hstock, hf, hq⟩

/-- What a computed check says of a catalog to which blocks have been added. -/
theorem exists_stocked {α : Type} {blocks : List CustomBlock} {f : Catalog → Except Fault α}
    {q : α → Bool}
    (h : (stock.bind fun c => (blocks.foldlM addCustom c).bind f).toOption.any q = true) :
    ∃ c a, Stocked c ∧ f c = .ok a ∧ q a = true := by
  obtain ⟨c, a, -, hc, hadded, hq⟩ := exists_stock h
  obtain ⟨c', hadded, hf⟩ := Outcome.bind_eq_ok.mp hadded
  exact ⟨c', a, Outcome.foldlM_induct Stocked hadded hc
    fun _ _ _ _ hc hadd => .custom hc hadd, hf, hq⟩

/-- Whatever can be registered, in any order. -/
inductive Made : Catalog → Prop
  | empty : Made Catalog.empty
  | builtin {c c' : Catalog} {id : KindId} {k : Kind} :
    Made c → c.addBuiltin id k = .ok c' → Made c'
  | custom {c c' : Catalog} {decl : CustomBlock} : Made c → c.addCustom decl = .ok c' → Made c'

theorem Stocked.made {c : Catalog} (h : c.Stocked) : c.Made := by
  induction h with
  | stock h => exact Outcome.foldlM_induct Made h .empty fun _ _ _ _ hc hadd => .builtin hc hadd
  | custom _ h ih => exact .custom ih h

/-- The terminals of every block are in place, and those without behaviour have none. -/
theorem Made.placed {c : Catalog} (h : c.Made) :
    ∀ b ∈ c.blocks, b.Placed ∧ (b.template = .inert → b.terminals = []) := by
  induction h with
  | empty => exact fun b hb => nomatch hb
  | @builtin c c' id k hc h ih =>
    unfold addBuiltin at h
    obtain ⟨b, hb, h⟩ := Outcome.bind_eq_ok.mp h
    obtain ⟨c₁, hc₁, h⟩ := Outcome.bind_eq_ok.mp h
    cases h
    have hbuiltin := Block.builtin_of_ofKind hb
    refine fun b' hb' => ?_
    rcases List.mem_cons.mp (blocks_of_insert hc₁ ▸ hb') with rfl | hb'
    · refine ⟨hbuiltin.placed, fun hinert => ?_⟩
      have hcomment : k = .comment := by
        by_contra hne
        exact nomatch hinert.symm.trans (hbuiltin.template.trans (if_neg hne))
      subst hcomment
      exact List.map_eq_nil_iff.mp hbuiltin.roles
    · exact ih b' hb'
  | @custom c c' decl hc h ih =>
    unfold addCustom at h
    obtain ⟨b, hb, h⟩ := Outcome.bind_eq_ok.mp h
    obtain ⟨hplaced, htemplate⟩ := Block.placed_of_ofCustom hb
    refine fun b' hb' => ?_
    rcases List.mem_cons.mp (blocks_of_insert h ▸ hb') with rfl | hb'
    · exact ⟨hplaced, fun hinert => nomatch hinert.symm.trans htemplate⟩
    · exact ih b' hb'

end Catalog
end SignalGraph
