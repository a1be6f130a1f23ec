import WasmCore.Proofs.Binary.Integers

/-!
# `Binary.Items` — what sections and instructions are made of

Each decoder of a small item against the form of that item.

* `reads_u32`, `reads_i32`, `reads_i64`: integers of the three kinds;
* `reads_vector`, `reads_span_bind`, `reads_name`: sequences, parts and names;
* `reads_valType`, `reads_funcType`, `reads_limits`, …: types;
* `reads_importItem`, `reads_exportItem`, `reads_localRun`: items of sections;
* `reads_plain`: the immediates of instructions.
-/

namespace WasmCore.Decoder

variable {α β : Type} {n : Nat} {d : Decoder α} {F : Form α}

/-! ## Forms by their rules -/

/-- A value that needs no bytes. -/
theorem Reads.pure_of {G : Form α} {a : α} (hintro : G [] a)
    (helim : ∀ {b x}, G b x → b = [] ∧ x = a) : Reads n (Pure.pure a : Decoder α) G := by
  refine (Reads.pure a).congr fun b x => ?_
  constructor
  · rintro ⟨rfl, rfl⟩; exact hintro
  · intro h; exact helim h

/-- A form that nothing has. -/
theorem Reads.fail_of {G : Form α} {offset : Nat} {fault : DecodeFault} (helim : ∀ {b x}, ¬G b x) :
    Reads n (failAt offset fault : Decoder α) G :=
  (Reads.fail offset fault).congr fun _ _ => ⟨False.elim, helim⟩

/-- What is made of the value of an item. -/
theorem Reads.map_of {g : α → β} {G : Form β} (hd : Reads n d F)
    (hintro : ∀ {b a}, F b a → G b (g a)) (helim : ∀ {b y}, G b y → ∃ a, F b a ∧ y = g a) :
    Reads n (g <$> d) G := by
  refine hd.map.congr fun b y => ?_
  constructor
  · rintro ⟨a, ha, rfl⟩; exact hintro ha
  · intro h; exact helim h

/-- Two items, and what is made of them. -/
theorem Reads.two_of {γ : Type} {d' : Decoder β} {F' : Form β} {g : α → β → γ} {G : Form γ}
    (hd : Reads n d F) (hd' : Reads n d' F')
    (hintro : ∀ {b₁ b₂ a c}, F b₁ a → F' b₂ c → G (b₁ ++ b₂) (g a c))
    (helim : ∀ {b y}, G b y → ∃ b₁ b₂ a c, b = b₁ ++ b₂ ∧ F b₁ a ∧ F' b₂ c ∧ y = g a c) :
    Reads n (do let a ← d; let c ← d'; return g a c) G := by
  refine (hd.bind fun a => hd'.bind fun c => Reads.pure (g a c)).congr fun b y => ?_
  constructor
  · rintro ⟨a, b₁, _, rfl, ha, c, b₂, _, rfl, hc, rfl, rfl⟩
    rw [List.append_nil]
    exact hintro ha hc
  · intro h
    obtain ⟨b₁, b₂, a, c, rfl, ha, hc, rfl⟩ := helim h
    exact ⟨a, b₁, b₂, rfl, ha, c, b₂, [], (List.append_nil b₂).symm, hc, rfl, rfl⟩

/-! ## Integers -/

theorem reads_u32 : Reads n u32 Form.u32 :=
  reads_unsigned.map_of (fun h => h) fun {_ y} h => ⟨y.toBitVec, h, rfl⟩

theorem reads_i32 : Reads n i32 Form.i32 :=
  (reads_signed (by decide)).map_of (fun h => h) fun {_ y} h => ⟨y.toBitVec, h, rfl⟩

theorem reads_i64 : Reads n i64 Form.i64 :=
  (reads_signed (by decide)).map_of (fun h => h) fun {_ y} h => ⟨y.toBitVec, h, rfl⟩

/-! ## Sequences and parts -/

/-- **A count, and exactly that many items.** -/
theorem reads_vector (hd : Reads n d F) : Reads n (vector d) (Form.vector F) := by
  refine (reads_u32.bind fun count => reads_times hd count.toNat).congr fun b xs => ?_
  constructor
  · rintro ⟨count, c, bs, rfl, hc, hlength, hxs⟩
    exact .mk hc hxs hlength.symm
  · rintro ⟨hc, hxs, hlength⟩
    exact ⟨_, _, _, rfl, hc, hlength.symm, hxs⟩

/-- **A size, and exactly that many bytes.** What follows looks at the bytes only. -/
theorem reads_span_bind {f : Input → Decoder β} {G : Form β}
    (hf : ∀ part : Input, Reads n (f part) fun b y => b = [] ∧ G part.bytes y) :
    Reads n (span >>= f) (Form.sized G) := by
  have hspan : (span >>= f) = (u32 >>= fun count => take count.toNat >>= f) := bind_assoc _ _ _
  rw [hspan]
  refine (reads_u32.bind fun count => reads_take_bind (H := fun bs b y => b = [] ∧ G bs y)
    hf).congr fun b y => ?_
  constructor
  · rintro ⟨count, c, _, rfl, hc, bs, _, rfl, hlength, rfl, hy⟩
    rw [List.append_nil]
    exact .mk hc hy hlength.symm
  · rintro ⟨hc, hy, hlength⟩
    exact ⟨_, _, _, rfl, hc, _, [], (List.append_nil _).symm, hlength.symm, rfl, hy⟩

/-- Bytes make up a string exactly if they are its encoding. -/
theorem fromUTF8?_eq_some_iff {bs : List UInt8} {s : String} :
    String.fromUTF8? (ByteArray.mk bs.toArray) = some s ↔ Form.utf8 bs s := by
  unfold String.fromUTF8? Form.utf8
  obtain ⟨bytes, hvalid⟩ := s
  constructor
  · intro h
    split at h
    · cases h; rfl
    · cases h
  · rintro rfl
    exact dif_pos hvalid

theorem reads_name : Reads n name Form.name := by
  refine reads_span_bind fun part => ?_
  cases hs : String.fromUTF8? (ByteArray.mk part.bytes.toArray) with
  | none =>
    refine Reads.fail_of ?_
    rintro b y ⟨-, h⟩
    rw [fromUTF8?_eq_some_iff.mpr h] at hs
    cases hs
  | some s =>
    refine Reads.pure_of ⟨rfl, fromUTF8?_eq_some_iff.mp hs⟩ ?_
    rintro b y ⟨rfl, h⟩
    rw [fromUTF8?_eq_some_iff.mpr h] at hs
    cases hs
    exact ⟨rfl, rfl⟩

/-! ## Types -/

theorem reads_valType : Reads n valType Form.valType := by
  refine Reads.position_bind fun start => ?_
  refine (Reads.tagged fun tag => Reads.ite (fun _ => Reads.pure _) fun _ =>
    Reads.ite (fun _ => Reads.pure _) fun _ => Reads.ite (fun _ => Reads.pure _) fun _ =>
    Reads.ite (fun _ => Reads.pure _) fun _ => Reads.fail _ _).congr fun b x => ?_
  constructor
  · rintro ⟨tag, rest, rfl, ⟨rfl, rfl, rfl⟩ | ⟨-, ⟨rfl, rfl, rfl⟩ | ⟨-, ⟨rfl, rfl, rfl⟩ |
      ⟨-, ⟨rfl, rfl, rfl⟩ | ⟨-, h⟩⟩⟩⟩⟩
    · exact .i32
    · exact .i64
    · exact .f32
    · exact .f64
    · exact h.elim
  · intro h
    cases h <;> exact ⟨_, [], rfl, by decide⟩

/-- No value type is written like the empty block type. -/
theorem head_valType {bs : List UInt8} {t : ValType} (h : Form.valType bs t) :
    ∃ tag, bs = [tag] ∧ tag ≠ 0x40 := by
  cases h <;> exact ⟨_, rfl, by decide⟩

/-- The decoder looks at the first byte and goes back if it is not the one for no result. -/
theorem blockType_cons (tag : UInt8) (rest : List UInt8) (offset : Nat) :
    blockType ⟨tag :: rest, offset⟩ =
      if tag = 0x40 then .ok (.empty, ⟨rest, offset + 1⟩)
      else (BlockType.value <$> valType) ⟨tag :: rest, offset⟩ := by
  show (if tag = 0x40 then pure BlockType.empty
    else (do set (⟨tag :: rest, offset⟩ : Input); return .value (← valType)) : Decoder BlockType)
      ⟨rest, offset + 1⟩ = _
  split
  · rfl
  · rw [map_eq_pure_bind]; rfl

theorem reads_blockType : Reads n blockType Form.blockType where
  sound := by
    rintro ⟨_ | ⟨tag, rest⟩, offset⟩ s' x h
    · cases h
    · rw [blockType_cons] at h
      split at h
      · rename_i htag
        cases h
        exact ⟨[0x40], .empty, by rw [htag]; rfl, rfl⟩
      · obtain ⟨b, ⟨t, ht, rfl⟩, hs⟩ := (reads_valType (n := 0)).map.sound h
        exact ⟨b, .value ht, hs⟩
  complete := by
    intro b x hb hlength rest offset
    cases hb with
    | empty => exact blockType_cons 0x40 rest offset
    | value ht =>
      obtain ⟨tag, rfl, htag⟩ := head_valType ht
      have hread := (reads_valType (n := n)).map (g := BlockType.value) |>.complete ⟨_, ht, rfl⟩
        hlength rest offset
      rw [List.singleton_append, blockType_cons, if_neg htag]
      exact hread

theorem reads_funcType : Reads n funcType Form.funcType := by
  refine Reads.position_bind fun start => ?_
  have htypes : Reads n
      (do let params ← vector valType; let results ← vector valType; return { params, results })
      fun b x => Form.funcType (0x60 :: b) x := by
    refine (reads_vector reads_valType).two_of (reads_vector reads_valType) .mk ?_
    rintro _ _ ⟨hparams, hresults⟩
    exact ⟨_, _, _, _, rfl, hparams, hresults, rfl⟩
  refine (Reads.tagged fun form => Reads.ite (fun _ => Reads.fail _ _) fun _ => htypes).congr
    fun b x => ?_
  constructor
  · rintro ⟨form, rest, rfl, ⟨-, h⟩ | ⟨hform, h⟩⟩
    · exact h.elim
    · rw [Decidable.not_not.mp hform]
      exact h
  · intro h
    cases h with
    | mk hparams hresults => exact ⟨0x60, _, rfl, .inr ⟨by decide, .mk hparams hresults⟩⟩

theorem reads_limits : Reads n limits Form.limits := by
  refine Reads.position_bind fun start => ?_
  refine (Reads.tagged fun flag => Reads.ite
    (fun _ => reads_u32.bind fun min => Reads.pure _) fun _ => Reads.ite
    (fun _ => reads_u32.bind fun min => reads_u32.bind fun max => Reads.pure _) fun _ =>
    Reads.fail _ _).congr fun b x => ?_
  constructor
  · rintro ⟨flag, rest, rfl, ⟨rfl, min, b₁, _, rfl, hmin, rfl, rfl⟩ | ⟨-, ⟨rfl, min, b₁, _, rfl, hmin,
      max, b₂, _, rfl, hmax, rfl, rfl⟩ | ⟨-, h⟩⟩⟩
    · rw [List.append_nil]
      exact .least hmin
    · rw [List.append_nil]
      exact .range hmin hmax
    · exact h.elim
  · intro h
    cases h with
    | least hmin =>
      exact ⟨0x00, _, rfl, .inl ⟨rfl, _, _, [], (List.append_nil _).symm, hmin, rfl, rfl⟩⟩
    | range hmin hmax =>
      exact ⟨0x01, _, rfl, .inr ⟨by decide, .inl ⟨rfl, _, _, _, rfl, hmin, _, _, [],
        (List.append_nil _).symm, hmax, rfl, rfl⟩⟩⟩

theorem reads_tableType : Reads n tableType Form.tableType := by
  refine Reads.position_bind fun start => ?_
  refine (Reads.tagged fun elem => Reads.ite (fun _ => Reads.fail _ _) fun _ =>
    reads_limits).congr fun b x => ?_
  constructor
  · rintro ⟨elem, rest, rfl, ⟨-, h⟩ | ⟨helem, h⟩⟩
    · exact h.elim
    · rw [Decidable.not_not.mp helem]
      exact .mk h
  · rintro ⟨h⟩
    exact ⟨0x70, _, rfl, .inr ⟨by decide, h⟩⟩

theorem reads_mutability : Reads n mutability Form.mutability := by
  refine Reads.position_bind fun start => ?_
  refine (Reads.tagged fun flag => Reads.ite (fun _ => Reads.pure _) fun _ =>
    Reads.ite (fun _ => Reads.pure _) fun _ => Reads.fail _ _).congr fun b x => ?_
  constructor
  · rintro ⟨flag, rest, rfl, ⟨rfl, rfl, rfl⟩ | ⟨-, ⟨rfl, rfl, rfl⟩ | ⟨-, h⟩⟩⟩
    · exact .const
    · exact .var
    · exact h.elim
  · intro h
    cases h <;> exact ⟨_, [], rfl, by decide⟩

theorem reads_globalType : Reads n globalType Form.globalType := by
  refine reads_valType.two_of reads_mutability .mk ?_
  rintro _ _ ⟨ht, hm⟩
  exact ⟨_, _, _, _, rfl, ht, hm, rfl⟩

/-! ## Imports and exports -/

theorem reads_importDesc : Reads n importDesc Form.importDesc := by
  refine Reads.position_bind fun start => ?_
  refine (Reads.tagged fun kind => Reads.ite (fun _ => reads_u32.map) fun _ =>
    Reads.ite (fun _ => reads_tableType.map) fun _ => Reads.ite (fun _ => reads_limits.map) fun _ =>
    Reads.ite (fun _ => reads_globalType.map) fun _ => Reads.fail _ _).congr fun b x => ?_
  constructor
  · rintro ⟨kind, rest, rfl, ⟨rfl, a, ha, rfl⟩ | ⟨-, ⟨rfl, a, ha, rfl⟩ | ⟨-, ⟨rfl, a, ha, rfl⟩ |
      ⟨-, ⟨rfl, a, ha, rfl⟩ | ⟨-, h⟩⟩⟩⟩⟩
    · exact .func ha
    · exact .table ha
    · exact .memory ha
    · exact .global ha
    · exact h.elim
  · intro h
    cases h with
    | func h => exact ⟨0x00, _, rfl, .inl ⟨rfl, _, h, rfl⟩⟩
    | table h => exact ⟨0x01, _, rfl, .inr ⟨by decide, .inl ⟨rfl, _, h, rfl⟩⟩⟩
    | memory h => exact ⟨0x02, _, rfl, .inr ⟨by decide, .inr ⟨by decide, .inl ⟨rfl, _, h, rfl⟩⟩⟩⟩
    | global h =>
      exact ⟨0x03, _, rfl, .inr ⟨by decide, .inr ⟨by decide, .inr ⟨by decide, .inl ⟨rfl, _, h, rfl⟩⟩⟩⟩⟩

theorem reads_importItem : Reads n importItem Form.importItem := by
  refine (reads_name.bind fun source => reads_name.bind fun item => reads_importDesc.bind fun desc =>
    Reads.pure _).congr fun b x => ?_
  constructor
  · rintro ⟨source, b₁, _, rfl, hsource, item, b₂, _, rfl, hitem, desc, b₃, _, rfl, hdesc, rfl, rfl⟩
    rw [List.append_nil, ← List.append_assoc]
    exact .mk hsource hitem hdesc
  · rintro ⟨hsource, hitem, hdesc⟩
    exact ⟨_, _, _, List.append_assoc _ _ _, hsource, _, _, _, rfl, hitem, _, _, [],
      (List.append_nil _).symm, hdesc, rfl, rfl⟩

/-- The index is read before the kind is looked at. -/
theorem reads_exportDesc : Reads n exportDesc Form.exportDesc := by
  refine Reads.position_bind fun start => ?_
  refine (Reads.tagged fun kind => reads_u32.bind fun index => Reads.ite (fun _ => Reads.pure _) fun _ =>
    Reads.ite (fun _ => Reads.pure _) fun _ => Reads.ite (fun _ => Reads.pure _) fun _ =>
    Reads.ite (fun _ => Reads.pure _) fun _ => Reads.fail _ _).congr fun b x => ?_
  constructor
  · rintro ⟨kind, _, rfl, index, bs, _, rfl, h, ⟨rfl, rfl, rfl⟩ | ⟨-, ⟨rfl, rfl, rfl⟩ | ⟨-, ⟨rfl, rfl, rfl⟩ |
      ⟨-, ⟨rfl, rfl, rfl⟩ | ⟨-, hfalse⟩⟩⟩⟩⟩
    · rw [List.append_nil]; exact .func h
    · rw [List.append_nil]; exact .table h
    · rw [List.append_nil]; exact .memory h
    · rw [List.append_nil]; exact .global h
    · exact hfalse.elim
  · intro h
    cases h with
    | func h => exact ⟨0x00, _, rfl, _, _, [], (List.append_nil _).symm, h, by simp⟩
    | table h => exact ⟨0x01, _, rfl, _, _, [], (List.append_nil _).symm, h, by simp⟩
    | memory h => exact ⟨0x02, _, rfl, _, _, [], (List.append_nil _).symm, h, by simp⟩
    | global h => exact ⟨0x03, _, rfl, _, _, [], (List.append_nil _).symm, h, by simp⟩

theorem reads_exportItem : Reads n exportItem Form.exportItem := by
  refine reads_name.two_of reads_exportDesc .mk ?_
  rintro _ _ ⟨hitem, hdesc⟩
  exact ⟨_, _, _, _, rfl, hitem, hdesc, rfl⟩

theorem reads_localRun : Reads n localRun Form.localRun := by
  refine reads_u32.two_of reads_valType .mk ?_
  rintro _ _ ⟨hcount, htype⟩
  exact ⟨_, _, _, _, rfl, hcount, htype, rfl⟩

/-! ## Immediates -/

theorem reads_memArg : Reads n memArg Form.memArg := by
  refine reads_u32.two_of reads_u32 .mk ?_
  rintro _ _ ⟨halign, hoffset⟩
  exact ⟨_, _, _, _, rfl, halign, hoffset, rfl⟩

/-- A reserved byte. -/
theorem reads_zeroByte : Reads n zeroByte fun b _ => b = [0x00] := by
  refine Reads.position_bind fun start => ?_
  refine (Reads.tagged fun tag => Reads.ite (fun _ => Reads.fail _ _) fun _ =>
    Reads.pure ()).congr fun b x => ?_
  constructor
  · rintro ⟨tag, _, rfl, ⟨-, h⟩ | ⟨htag, rfl, -⟩⟩
    · exact h.elim
    · rw [Decidable.not_not.mp htag]
  · rintro rfl
    exact ⟨0x00, [], rfl, .inr ⟨by decide, rfl, rfl⟩⟩

/-- What is made of as many bytes as given. -/
theorem reads_take_map {count : Nat} (g : List UInt8 → α) :
    Reads n (do let part ← take count; return g part.bytes) fun b x => b.length = count ∧ x = g b := by
  refine (reads_take_bind (H := fun bs b x => b = [] ∧ x = g bs) fun part => Reads.pure _).congr
    fun b x => ?_
  constructor
  · rintro ⟨bs, _, rfl, hlength, rfl, hx⟩
    rw [List.append_nil]
    exact ⟨hlength, hx⟩
  · rintro ⟨hlength, hx⟩
    exact ⟨b, [], (List.append_nil b).symm, hlength, rfl, hx⟩

theorem reads_number (count : Nat) :
    Reads n (number count) fun b x => b.length = count ∧ x = Bytes.toNat b :=
  reads_take_map Bytes.toNat

/-- **The constant of a type.** -/
theorem reads_constant (t : ValType) :
    Reads n (constant t) fun b v => Form.constant b v ∧ v.type = t := by
  cases t with
  | i32 =>
    refine reads_i32.map_of (fun h => ⟨.i32 h, rfl⟩) ?_
    rintro b v ⟨h, ht⟩
    cases h with
    | i32 h => exact ⟨_, h, rfl⟩
    | _ => cases ht
  | i64 =>
    refine reads_i64.map_of (fun h => ⟨.i64 h, rfl⟩) ?_
    rintro b v ⟨h, ht⟩
    cases h with
    | i64 h => exact ⟨_, h, rfl⟩
    | _ => cases ht
  | f32 =>
    refine ((reads_number 4).bind fun x => Reads.pure _).congr fun b v => ?_
    constructor
    · rintro ⟨x, b₁, _, rfl, ⟨hlength, rfl⟩, rfl, rfl⟩
      have hlt := Bytes.toNat_lt b₁
      rw [hlength] at hlt
      rw [List.append_nil]
      refine ⟨.f32 hlength ?_, rfl⟩
      rw [UInt32.toNat_ofNat', Nat.mod_eq_of_lt hlt]
    · rintro ⟨h, ht⟩
      cases h with
      | f32 hlength hx =>
        refine ⟨_, b, [], (List.append_nil b).symm, ⟨hlength, rfl⟩, rfl, ?_⟩
        rw [hx, UInt32.ofNat_toNat]
      | _ => cases ht
  | f64 =>
    refine ((reads_number 8).bind fun x => Reads.pure _).congr fun b v => ?_
    constructor
    · rintro ⟨x, b₁, _, rfl, ⟨hlength, rfl⟩, rfl, rfl⟩
      have hlt := Bytes.toNat_lt b₁
      rw [hlength] at hlt
      rw [List.append_nil]
      refine ⟨.f64 hlength ?_, rfl⟩
      rw [UInt64.toNat_ofNat', Nat.mod_eq_of_lt hlt]
    · rintro ⟨h, ht⟩
      cases h with
      | f64 hlength hx =>
        refine ⟨_, b, [], (List.append_nil b).symm, ⟨hlength, rfl⟩, rfl, ?_⟩
        rw [hx, UInt64.ofNat_toNat]
      | _ => cases ht

/-- **The immediates of an instruction without bodies.** -/
theorem reads_plain (m : Mnemonic) : Reads n (plain m) (Form.immediates m) := by
  cases m with
  | unreachable => exact .pure_of .unreachable fun h => by cases h; exact ⟨rfl, rfl⟩
  | nop => exact .pure_of .nop fun h => by cases h; exact ⟨rfl, rfl⟩
  | br => exact reads_u32.map_of .br fun h => by cases h with | br h => exact ⟨_, h, rfl⟩
  | brIf => exact reads_u32.map_of .brIf fun h => by cases h with | brIf h => exact ⟨_, h, rfl⟩
  | brTable =>
    refine (reads_vector reads_u32).two_of reads_u32 .brTable ?_
    intro b i h
    cases h with
    | brTable hls hdefault => exact ⟨_, _, _, _, rfl, hls, hdefault, rfl⟩
  | ret => exact .pure_of .ret fun h => by cases h; exact ⟨rfl, rfl⟩
  | call => exact reads_u32.map_of .call fun h => by cases h with | call h => exact ⟨_, h, rfl⟩
  | callIndirect =>
    refine (reads_u32.bind fun t => reads_zeroByte.bind fun _ => Reads.pure _).congr fun b x => ?_
    constructor
    · rintro ⟨t, b₁, _, rfl, ht, -, _, _, rfl, rfl, rfl, rfl⟩
      exact .callIndirect ht
    · intro h
      cases h with
      | callIndirect ht => exact ⟨_, _, _, rfl, ht, (), [0x00], [], rfl, rfl, rfl, rfl⟩
  | drop => exact .pure_of .drop fun h => by cases h; exact ⟨rfl, rfl⟩
  | select => exact .pure_of .select fun h => by cases h; exact ⟨rfl, rfl⟩
  | localGet => exact reads_u32.map_of .localGet fun h => by cases h with | localGet h => exact ⟨_, h, rfl⟩
  | localSet => exact reads_u32.map_of .localSet fun h => by cases h with | localSet h => exact ⟨_, h, rfl⟩
  | localTee => exact reads_u32.map_of .localTee fun h => by cases h with | localTee h => exact ⟨_, h, rfl⟩
  | globalGet =>
    exact reads_u32.map_of .globalGet fun h => by cases h with | globalGet h => exact ⟨_, h, rfl⟩
  | globalSet =>
    exact reads_u32.map_of .globalSet fun h => by cases h with | globalSet h => exact ⟨_, h, rfl⟩
  | load op => exact reads_memArg.map_of .load fun h => by cases h with | load h => exact ⟨_, h, rfl⟩
  | store op => exact reads_memArg.map_of .store fun h => by cases h with | store h => exact ⟨_, h, rfl⟩
  | memorySize =>
    refine (reads_zeroByte.bind fun _ => Reads.pure _).congr fun b x => ?_
    constructor
    · rintro ⟨-, _, _, rfl, rfl, rfl, rfl⟩; exact .memorySize
    · intro h; cases h; exact ⟨(), [0x00], [], rfl, rfl, rfl, rfl⟩
  | memoryGrow =>
    refine (reads_zeroByte.bind fun _ => Reads.pure _).congr fun b x => ?_
    constructor
    · rintro ⟨-, _, _, rfl, rfl, rfl, rfl⟩; exact .memoryGrow
    · intro h; cases h; exact ⟨(), [0x00], [], rfl, rfl, rfl, rfl⟩
  | const t =>
    refine (reads_constant t).map_of ?_ ?_
    · rintro b v ⟨h, rfl⟩; exact .const h
    · intro b i h
      cases h with
      | const h => exact ⟨_, ⟨h, rfl⟩, rfl⟩
  | numeric op => exact .pure_of .numeric fun h => by cases h; exact ⟨rfl, rfl⟩

end WasmCore.Decoder
