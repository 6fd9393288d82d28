import WideColumn.Proofs.Json.Scan
import WideColumn.Settings.Handle
import WideColumn.Settings.Pool
import WideColumn.Settings.Schema

/-!
# Settings that are written are read back

Settings of handles and pools and definitions of keyspaces are read back from the JSON text that is
written of them. The numbers in settings have to fit in the words they are read as, and those that
were read do.

- `Json.ReadsBack`: a value is read back from what is written of it, which is plain;
- `Json.fields?_ofFields`: the fields of a record are found again;
- `HandleOptions.Fits`, `PoolConfig.Fits`: the numbers fit, as after reading (`fits_of_ofJson?`);
- `readsBack` of each kind of settings, and `reread`: so they are from their texts.
-/

namespace WideColumn

namespace Json

/-! ## Plain values -/

theorem plain_ofText (s : String) : (ofText s).Plain := by
  refine List.forall_mem_singleton.2 fun p hp => ?_
  obtain ⟨c, -, rfl⟩ := List.mem_map.1 hp
  exact c.valid

private theorem plain_ofNat (n : Nat) : (ofNat n).Plain := List.forall_mem_singleton.2 trivial

private theorem plain_bool (b : Bool) : (Json.bool b).Plain := List.forall_mem_singleton.2 trivial

private theorem plain_itemTokens : ∀ {items : List Json}, (∀ v ∈ items, v.Plain) →
    ∀ token ∈ tokens.itemTokens items, token.Plain
  | [], _ => nofun
  | [v], h => List.forall_mem_singleton.1 h
  | v :: w :: items, h => by
    obtain ⟨hv, hitems⟩ := List.forall_mem_cons.1 h
    rw [tokens.itemTokens, List.forall_mem_append, List.forall_mem_cons]
    exact ⟨hv, trivial, plain_itemTokens hitems⟩

private theorem plain_fieldTokens : ∀ {fields : List (List Nat × Json)},
    (∀ f ∈ fields, (string f.1).Plain ∧ f.2.Plain) →
      ∀ token ∈ tokens.fieldTokens fields, token.Plain
  | [], _ => nofun
  | [(name, v)], h => by
    obtain ⟨hname, hv⟩ := List.forall_mem_singleton.1 h
    rw [tokens.fieldTokens, List.forall_mem_cons, List.forall_mem_cons]
    exact ⟨List.forall_mem_singleton.1 hname, trivial, hv⟩
  | (name, v) :: field :: fields, h => by
    obtain ⟨⟨hname, hv⟩, hfields⟩ := List.forall_mem_cons.1 h
    rw [tokens.fieldTokens, List.forall_mem_cons, List.forall_mem_cons, List.forall_mem_append,
      List.forall_mem_cons]
    exact ⟨List.forall_mem_singleton.1 hname, trivial, hv, trivial, plain_fieldTokens hfields⟩

private theorem plain_array {items : List Json} (h : ∀ v ∈ items, v.Plain) :
    (array items).Plain := by
  rw [Plain, tokens, List.forall_mem_cons, List.forall_mem_append, List.forall_mem_singleton]
  exact ⟨trivial, plain_itemTokens h, trivial⟩

private theorem plain_ofFields {fields : List (String × Json)} (h : ∀ f ∈ fields, f.2.Plain) :
    (ofFields fields).Plain := by
  rw [Plain, ofFields, tokens, List.forall_mem_cons, List.forall_mem_append,
    List.forall_mem_singleton]
  refine ⟨trivial, plain_fieldTokens ?_, trivial⟩
  rw [List.forall_mem_map]
  exact fun f hf => ⟨plain_ofText f.1, h f hf⟩

/-! ## Values -/

/-- A value is read back from what is written of it, and what is written is plain. -/
structure ReadsBack {α : Type} (read : Json → Option α) (write : α → Json) (a : α) : Prop where
  read : read (write a) = some a
  plain : (write a).Plain

private theorem text?_points (s : String) : text? (s.toList.map Char.toNat) = some s := by
  have hvalid : (s.toList.map Char.toNat).all Nat.isValidChar = true := by
    rw [List.all_map, List.all_eq_true]
    exact fun c _ => decide_eq_true c.valid
  have hchars : s.toList.map (Char.ofNat ∘ Char.toNat) = s.toList :=
    (List.map_congr_left fun c _ => Char.ofNat_toNat c).trans (List.map_id _)
  rw [text?, if_pos hvalid, List.map_map, hchars, String.ofList_toList]

private theorem asNat?_ofNat {n bound : Nat} (h : n < bound) : asNat? bound (ofNat n) = some n := by
  show (if n < bound then some n else none) = _
  rw [if_pos h]

private theorem mapM_map_eq_some {α β γ : Type} {f : β → Option γ} {g : α → β} {k : α → γ}
    {xs : List α} (h : ∀ x ∈ xs, f (g x) = some (k x)) : (xs.map g).mapM f = some (xs.map k) := by
  induction xs with
  | nil => rfl
  | cons x xs ih =>
    obtain ⟨hx, hxs⟩ := List.forall_mem_cons.1 h
    rw [List.map_cons, List.mapM_cons, hx, ih hxs]
    rfl

namespace ReadsBack

variable {α : Type} {read : Json → Option α} {write : α → Json}

theorem text (s : String) : ReadsBack asText? ofText s where
  read := text?_points s
  plain := plain_ofText s

theorem bool (b : Bool) : ReadsBack asBool? .bool b where
  read := rfl
  plain := plain_bool b

private theorem nat {n bound : Nat} (h : n < bound) : ReadsBack (asNat? bound) ofNat n where
  read := asNat?_ofNat h
  plain := plain_ofNat n

theorem list {items : List α} (h : ∀ a ∈ items, ReadsBack read write a) :
    ReadsBack (asList? read) (ofList write) items where
  read := (mapM_map_eq_some fun a ha => (h a ha).read).trans (congrArg some (List.map_id _))
  plain := plain_array (List.forall_mem_map.2 fun a ha => (h a ha).plain)

/-- Whether a value is there can be told as long as none is written like its absence. -/
theorem option {value : Option α} (h : ∀ a ∈ value, ReadsBack read write a)
    (hnull : ∀ a, write a ≠ .null) : ReadsBack (asOption? read) (ofOption write) value := by
  cases value with
  | none => exact ⟨rfl, List.forall_mem_singleton.2 trivial⟩
  | some a =>
    refine ⟨?_, (h a rfl).plain⟩
    rw [ofOption, asOption?.eq_2 _ _ (hnull a), (h a rfl).read]
    rfl

/-- A choice goes by its name. -/
theorem choice {ofName : String → Option α} (name : α → String) {a : α}
    (h : ofName (name a) = some a) :
    ReadsBack (asChoice? ofName) (fun a => ofText (name a)) a where
  read := by
    show text? _ >>= ofName = _
    rw [text?_points]
    exact h
  plain := plain_ofText _

end ReadsBack

/-! ## Records -/

private theorem points_inj {s s' : String}
    (h : s.toList.map Char.toNat = s'.toList.map Char.toNat) :
    s = s' := by
  have htext := text?_points s
  rw [h, text?_points] at htext
  exact (Option.some.inj htext).symm

private theorem filter_name {fields : List (String × Json)} (hdistinct : (fields.map (·.1)).Nodup)
    {name : String} {v : Json} (h : (name, v) ∈ fields) :
    fields.filter (fun f => f.1 == name) = [(name, v)] := by
  induction fields with
  | nil => cases h
  | cons f fields ih =>
    rw [List.map_cons, List.nodup_cons] at hdistinct
    rw [List.filter_cons]
    rcases List.mem_cons.1 h with rfl | h
    · -- the field is the first one, and no later field has its name
      have hrest : fields.filter (fun f => f.1 == name) = [] := by
        refine List.filter_eq_nil_iff.2 fun f hf hname => hdistinct.1 ?_
        exact List.mem_map.2 ⟨f, hf, beq_iff_eq.1 hname⟩
      rw [if_pos (beq_self_eq_true name), hrest]
    · -- the field comes later, so the first one has another name
      have hother : ¬(f.1 == name) = true := fun hname =>
        hdistinct.1 (List.mem_map.2 ⟨_, h, (beq_iff_eq.1 hname).symm⟩)
      rw [if_neg hother, ih hdistinct.2 h]

/-- A name that one field only has is looked up as that field's value. -/
private theorem single?_of_filter {fields : List (List Nat × Json)} {name : String}
    {points : List Nat} {v : Json}
    (h : fields.filter (fun f => f.1 == name.toList.map Char.toNat) = [(points, v)]) :
    single? fields name = some (some v) := by
  rw [single?]
  split
  · next hnone => cases h.symm.trans hnone
  · next hone =>
    cases h.symm.trans hone
    rfl
  · next hmany => exact absurd h (hmany _ _)

/-- The fields of a record with distinct names are found again. -/
theorem fields?_ofFields {names : List String} {fields : List (String × Json)}
    (hnames : fields.map (·.1) = names) (hdistinct : names.Nodup) :
    fields? names (ofFields fields) = some (false, fields.map fun f => some f.2) := by
  subst hnames
  -- every field is a known one
  have hknown : ∀ f ∈ fields, ((text? (f.1.toList.map Char.toNat)).any fun name =>
      (fields.map (·.1)).contains name || f.2.isEscaped) = true := by
    intro f hf
    have hcontains : (fields.map (·.1)).contains f.1 = true :=
      List.contains_iff_mem.2 (List.mem_map_of_mem hf)
    rw [text?_points, Option.any_some, hcontains, Bool.true_or]
  -- each name is met once, whose value is the one looked up
  have hsingle : ∀ f ∈ fields,
      single? (fields.map fun f => (f.1.toList.map Char.toNat, f.2)) f.1 = some (some f.2) := by
    intro f hf
    have hname : ∀ f' : String × Json,
        (f'.1.toList.map Char.toNat == f.1.toList.map Char.toNat) = (f'.1 == f.1) := fun f' =>
      Bool.eq_iff_iff.2 (by
        rw [beq_iff_eq, beq_iff_eq]
        exact ⟨points_inj, congrArg fun s : String => s.toList.map Char.toNat⟩)
    refine @single?_of_filter _ _ (f.1.toList.map Char.toNat) _ ?_
    rw [List.filter_map]
    show (fields.filter fun f' => f'.1.toList.map Char.toNat == f.1.toList.map Char.toNat).map _ =
      _
    simp only [hname]
    rw [filter_name hdistinct hf]
    rfl
  rw [ofFields, fields?]
  refine (if_pos ?_).trans (congrArg (Option.map (false, ·)) (mapM_map_eq_some hsingle))
  rw [List.all_map, List.all_eq_true]
  exact hknown

/-- A record whose fields are all known has no others. -/
theorem hasOnly_ofFields {names : List String} {fields : List (String × Json)}
    (hnames : fields.map (·.1) = names) : (ofFields fields).hasOnly names = true := by
  subst hnames
  rw [ofFields, hasOnly, List.all_map, List.all_eq_true]
  intro f hf
  exact List.any_eq_true.2 ⟨f.1, List.mem_map_of_mem hf, beq_self_eq_true _⟩

private theorem guard_eq_some {p : Prop} [Decidable p] : (guard p : Option Unit) = some () ↔ p := by
  rw [guard]
  split
  · next h => exact iff_of_true rfl h
  · next h => exact iff_of_false nofun h

section Fields

variable {α β : Type} {read : Json → Option α} {write : α → Json} {f : α → Option β} {a : α} {b : β}

/-- A chain of steps goes on with what its first step answers. -/
theorem bind_of_some {x : Option α} (hx : x = some a) (hf : f a = some b) :
    (x >>= f) = some b := by
  rw [hx]
  exact hf

theorem ReadsBack.needed (ha : ReadsBack read write a) (hf : f a = some b) :
    (needed? read (some (write a)) >>= f) = some b :=
  bind_of_some ha.read hf

private theorem ReadsBack.defaulted {fallback : α} (ha : ReadsBack read write a)
    (hf : f a = some b) :
    (defaulted? read fallback (some (write a)) >>= f) = some b :=
  bind_of_some ha.read hf

theorem ReadsBack.absent {f : Option α → Option β} {value : Option α} {inArray : Bool}
    (hvalue : ReadsBack (asOption? read) (ofOption write) value) (hf : f value = some b) :
    (absent? read inArray (some (ofOption write value)) >>= f) = some b :=
  bind_of_some hvalue.read hf

/-- What is read back is read back from its text. -/
theorem ReadsBack.ofText (ha : ReadsBack read write a) :
    (parse? (write a).text >>= read) = some a :=
  bind_of_some (parse?_text ha.plain) ha.read

end Fields

/-! ## Numbers that were read -/

theorem lt_of_asNat? {bound n : Nat} {j : Json} (h : asNat? bound j = some n) : n < bound := by
  rw [asNat?.eq_def] at h
  split at h
  · split at h
    · next hlt =>
      cases h
      exact hlt
    · cases h
  · cases h

private theorem lt_of_asOption? {bound : Nat} {j : Json} {value : Option Nat}
    (h : asOption? (asNat? bound) j = some value) : ∀ n ∈ value, n < bound := by
  rintro n rfl
  rw [asOption?.eq_def] at h
  split at h
  · cases h
  · obtain ⟨_, hn, heq⟩ := Option.map_eq_some_iff.1 h
    cases heq
    exact lt_of_asNat? hn

/-- What holds of the default and of all that is read, holds of a field. -/
theorem of_defaulted? {α : Type} {P : α → Prop} {value : Json → Option α} {fallback a : α}
    {field : Option Json} (hfallback : P fallback) (hvalue : ∀ {j a}, value j = some a → P a)
    (h : defaulted? value fallback field = some a) : P a := by
  cases field with
  | none =>
    cases h
    exact hfallback
  | some j => exact hvalue h

end Json

open Json

/-! ## Settings of handles -/

theorem Consistency.readsBack (level : Consistency) : ReadsBack ofJson? toJson level :=
  .choice name (by cases level <;> rfl)

namespace HandleOptions

/-- The numbers of handle settings fit in 64 bits. -/
structure Fits (o : HandleOptions) : Prop where
  bufferSize : o.bufferSize < UInt64.size
  multigetSize : o.multigetSize < UInt64.size

theorem readsBack {o : HandleOptions} (h : o.Fits) : ReadsBack ofJson? toJson o where
  read :=
    bind_of_some (fields?_ofFields rfl (by decide)) <|
      (ReadsBack.bool o.packNames).defaulted <| (ReadsBack.bool o.packValues).defaulted <|
      (ReadsBack.bool o.packKeys).defaulted <| (Consistency.readsBack o.readLevel).defaulted <|
      (Consistency.readsBack o.writeLevel).defaulted <| (ReadsBack.nat h.bufferSize).defaulted <|
      (ReadsBack.nat h.multigetSize).defaulted rfl
  plain := by
    refine plain_ofFields ?_
    simp only [List.forall_mem_cons]
    exact ⟨plain_bool _, plain_bool _, plain_bool _, plain_ofText _, plain_ofText _, plain_ofNat _,
      plain_ofNat _, nofun⟩

theorem fits_of_ofJson? {j : Json} {o : HandleOptions} (h : ofJson? j = some o) : o.Fits := by
  rw [ofJson?] at h
  obtain ⟨⟨_, values⟩, -, h⟩ := Option.bind_eq_some_iff.1 h
  split at h
  · simp only [Option.bind_eq_bind, Option.bind_eq_some_iff] at h
    obtain ⟨_, -, _, -, _, -, _, -, _, -, bufferSize, hbuffer, multigetSize, hmultiget, h⟩ := h
    cases h
    exact ⟨of_defaulted? (P := (· < UInt64.size)) (by decide) lt_of_asNat? hbuffer,
      of_defaulted? (P := (· < UInt64.size)) (by decide) lt_of_asNat? hmultiget⟩
  · cases h

/-- Handle settings that were read are read again from the text that is written of them. -/
theorem reread {j : Json} {o : HandleOptions} (h : ofJson? j = some o) :
    (parse? o.toJson.text >>= ofJson?) = some o :=
  (readsBack (fits_of_ofJson? h)).ofText

end HandleOptions

/-! ## Settings of pools -/

namespace Duration

theorem readsBack {d : Duration} (h : d.seconds < UInt64.size) : ReadsBack ofJson? toJson d where
  -- seconds and nanoseconds are read as two numbers, and together they are the duration again
  read := by
    have hnanos : d.subsecond < UInt32.size :=
      Nat.lt_trans (Nat.mod_lt _ (by decide)) (by decide)
    have hparts : ofParts d.seconds d.subsecond = d := by
      rw [ofParts, seconds, subsecond, Nat.div_add_mod']
    refine bind_of_some (guard_eq_some.2 (hasOnly_ofFields rfl)) <|
      bind_of_some (fields?_ofFields rfl (by decide)) <|
      (ReadsBack.nat h).needed <| (ReadsBack.nat hnanos).needed <|
      bind_of_some (guard_eq_some.2 ?_) ?_
    · rw [hparts]
      exact h
    · rw [hparts]
      rfl
  plain := by
    refine plain_ofFields ?_
    simp only [List.forall_mem_cons]
    exact ⟨plain_ofNat _, plain_ofNat _, nofun⟩

private theorem lt_of_ofJson? {j : Json} {d : Duration} (h : ofJson? j = some d) :
    d.seconds < UInt64.size := by
  rw [ofJson?] at h
  obtain ⟨_, -, h⟩ := Option.bind_eq_some_iff.1 h
  obtain ⟨⟨_, values⟩, -, h⟩ := Option.bind_eq_some_iff.1 h
  split at h
  · obtain ⟨_, -, h⟩ := Option.bind_eq_some_iff.1 h
    obtain ⟨_, -, h⟩ := Option.bind_eq_some_iff.1 h
    obtain ⟨_, hseconds, h⟩ := Option.bind_eq_some_iff.1 h
    cases h
    exact guard_eq_some.1 hseconds
  · cases h

end Duration

theorem Credentials.readsBack (c : Credentials) : ReadsBack ofJson? toJson c where
  read := bind_of_some (fields?_ofFields rfl (by decide)) <|
    (ReadsBack.text c.username).needed <| (ReadsBack.text c.password).needed rfl
  plain := by
    refine plain_ofFields ?_
    simp only [List.forall_mem_cons]
    exact ⟨plain_ofText _, plain_ofText _, nofun⟩

namespace PoolConfig

/-- The numbers of pool settings fit in 64 bits, or in 32 bits for the number of attempts. -/
structure Fits (c : PoolConfig) : Prop where
  poolSize : ∀ n ∈ c.poolSize, n < UInt64.size
  maxRetries : c.maxRetries < UInt32.size
  baseBackoff : c.baseBackoff.seconds < UInt64.size
  maxBackoff : c.maxBackoff.seconds < UInt64.size
  recycle : c.recycle < UInt64.size
  sendTimeout : c.sendTimeout.seconds < UInt64.size
  receiveTimeout : c.receiveTimeout.seconds < UInt64.size
  poolTimeout : c.poolTimeout.seconds < UInt64.size

theorem readsBack {c : PoolConfig} (h : c.Fits) : ReadsBack ofJson? toJson c := by
  -- the fields that are not of a plain kind; the others are read in the order they are written
  have hservers : ReadsBack (asList? asText?) (ofList ofText) c.servers := .list fun s _ => .text s
  have hpoolSize : ReadsBack (asOption? (asNat? UInt64.size)) (ofOption ofNat) c.poolSize :=
    .option (fun n hn => .nat (h.poolSize n hn)) fun _ => nofun
  have hcredentials : ReadsBack (asOption? Credentials.ofJson?) (ofOption Credentials.toJson)
      c.credentials :=
    .option (fun credentials _ => credentials.readsBack) fun _ => nofun
  constructor
  · exact bind_of_some (fields?_ofFields rfl (by decide)) <|
      (ReadsBack.text c.keyspace).defaulted <| hservers.defaulted <| hpoolSize.defaulted <|
      (ReadsBack.nat h.maxRetries).defaulted <| (Duration.readsBack h.baseBackoff).defaulted <|
      (Duration.readsBack h.maxBackoff).defaulted <| (ReadsBack.nat h.recycle).defaulted <|
      (Duration.readsBack h.sendTimeout).defaulted <|
      (Duration.readsBack h.receiveTimeout).defaulted <|
      (Duration.readsBack h.poolTimeout).defaulted <| hcredentials.defaulted <|
      (ReadsBack.bool c.framed).defaulted <| (ReadsBack.bool c.prefill).defaulted rfl
  · refine plain_ofFields ?_
    simp only [List.forall_mem_cons]
    exact ⟨plain_ofText _, hservers.plain, hpoolSize.plain, plain_ofNat _,
      (Duration.readsBack h.baseBackoff).plain, (Duration.readsBack h.maxBackoff).plain,
      plain_ofNat _, (Duration.readsBack h.sendTimeout).plain,
      (Duration.readsBack h.receiveTimeout).plain, (Duration.readsBack h.poolTimeout).plain,
      hcredentials.plain, plain_bool _, plain_bool _, nofun⟩

theorem fits_of_ofJson? {j : Json} {c : PoolConfig} (h : ofJson? j = some c) : c.Fits := by
  -- a field that is missing takes the default, which fits as well
  have hduration : ∀ {fallback d : Duration} {field : Option Json},
      fallback.seconds < UInt64.size → defaulted? Duration.ofJson? fallback field = some d →
        d.seconds < UInt64.size := fun hfallback h =>
    of_defaulted? (P := fun d : Duration => d.seconds < UInt64.size) hfallback
      Duration.lt_of_ofJson? h
  rw [ofJson?] at h
  obtain ⟨⟨_, values⟩, -, h⟩ := Option.bind_eq_some_iff.1 h
  split at h
  · -- the fields are taken one after the other
    obtain ⟨_, -, h⟩ := Option.bind_eq_some_iff.1 h
    obtain ⟨_, -, h⟩ := Option.bind_eq_some_iff.1 h
    obtain ⟨poolSize, hpoolSize, h⟩ := Option.bind_eq_some_iff.1 h
    obtain ⟨maxRetries, hmaxRetries, h⟩ := Option.bind_eq_some_iff.1 h
    obtain ⟨baseBackoff, hbaseBackoff, h⟩ := Option.bind_eq_some_iff.1 h
    obtain ⟨maxBackoff, hmaxBackoff, h⟩ := Option.bind_eq_some_iff.1 h
    obtain ⟨recycle, hrecycle, h⟩ := Option.bind_eq_some_iff.1 h
    obtain ⟨sendTimeout, hsendTimeout, h⟩ := Option.bind_eq_some_iff.1 h
    obtain ⟨receiveTimeout, hreceiveTimeout, h⟩ := Option.bind_eq_some_iff.1 h
    obtain ⟨poolTimeout, hpoolTimeout, h⟩ := Option.bind_eq_some_iff.1 h
    obtain ⟨_, -, h⟩ := Option.bind_eq_some_iff.1 h
    obtain ⟨_, -, h⟩ := Option.bind_eq_some_iff.1 h
    obtain ⟨_, -, h⟩ := Option.bind_eq_some_iff.1 h
    cases h
    exact {
      poolSize := of_defaulted? (P := fun size => ∀ n ∈ size, n < UInt64.size)
        (by rintro n hn; cases hn) lt_of_asOption? hpoolSize
      maxRetries := of_defaulted? (P := (· < UInt32.size)) (by decide) lt_of_asNat? hmaxRetries
      baseBackoff := hduration (by decide) hbaseBackoff
      maxBackoff := hduration (by decide) hmaxBackoff
      recycle := of_defaulted? (P := (· < UInt64.size)) (by decide) lt_of_asNat? hrecycle
      sendTimeout := hduration (by decide) hsendTimeout
      receiveTimeout := hduration (by decide) hreceiveTimeout
      poolTimeout := hduration (by decide) hpoolTimeout }
  · cases h

/-- Pool settings that were read are read again from the text that is written of them. -/
theorem reread {j : Json} {c : PoolConfig} (h : ofJson? j = some c) :
    (parse? c.toJson.text >>= ofJson?) = some c :=
  (readsBack (fits_of_ofJson? h)).ofText

end PoolConfig

/-! ## Definitions -/

theorem Bytes.readsBack (bs : Bytes) : ReadsBack ofJson? toJson bs where
  read := by
    show (bs.map fun b => ofNat b.toNat).mapM _ = some bs
    rw [mapM_map_eq_some (k := id) fun b _ => ?_, List.map_id]
    rw [asNat?_ofNat b.toNat_lt, Option.map_some, UInt8.ofNat_toNat]
    rfl
  plain := plain_array (List.forall_mem_map.2 fun b _ => plain_ofNat b.toNat)

theorem ColumnDef.readsBack (c : ColumnDef) : ReadsBack ofJson? toJson c := by
  have hindexName : ReadsBack (asOption? asText?) (ofOption ofText) c.indexName :=
    .option (fun s _ => .text s) fun _ => nofun
  -- The only kind of index stands for the index itself.
  have hindexed : absent? (asChoice? fun s => if s = "Keys" then some () else none) false
      (some (if c.indexed then ofText "Keys" else .null)) =
        some (if c.indexed then some () else none) := by
    cases c.indexed with
    | false => rfl
    | true =>
      have hkeys : ReadsBack (asChoice? fun s => if s = "Keys" then some () else none)
          (fun _ => ofText "Keys") () := .choice (fun _ => "Keys") rfl
      show some <$> asChoice? _ (ofText "Keys") = some (some ())
      rw [hkeys.read]
      rfl
  constructor
  · refine bind_of_some (fields?_ofFields rfl (by decide)) <|
      (Bytes.readsBack c.name).needed <| (ReadsBack.text c.validation).needed <|
      bind_of_some hindexed <| hindexName.absent ?_
    obtain ⟨name, validation, _ | _, indexName⟩ := c <;> rfl
  · refine plain_ofFields ?_
    simp only [List.forall_mem_cons]
    refine ⟨(Bytes.readsBack _).plain, plain_ofText _, ?_, hindexName.plain, nofun⟩
    cases c.indexed with
    | false => exact List.forall_mem_singleton.2 trivial
    | true => exact plain_ofText _

theorem ColumnLayout.readsBack (layout : ColumnLayout) : ReadsBack ofJson? toJson layout where
  read := by
    cases layout <;>
      · show text? _ >>= _ = _
        rw [text?_points]
        rfl
  plain := by cases layout <;> exact plain_ofText _

theorem TableDef.readsBack (t : TableDef) : ReadsBack ofJson? toJson t := by
  -- the two fields that hold something optional or several things
  have hsubcomparator : ReadsBack (asOption? asText?) (ofOption ofText) t.subcomparator :=
    .option (fun s _ => .text s) fun _ => nofun
  have hcolumns : ReadsBack (asList? ColumnDef.ofJson?) (ofList ColumnDef.toJson) t.columns :=
    .list fun c _ => c.readsBack
  constructor
  · exact bind_of_some (fields?_ofFields rfl (by decide)) <|
      (ReadsBack.text t.keyspace).needed <| (ReadsBack.text t.name).needed <|
      (ColumnLayout.readsBack t.layout).needed <| (ReadsBack.text t.comparator).needed <|
      hsubcomparator.absent <| (ReadsBack.text t.validation).needed <|
      (ReadsBack.text t.keyValidation).needed <| hcolumns.needed rfl
  · refine plain_ofFields ?_
    simp only [List.forall_mem_cons]
    exact ⟨plain_ofText _, plain_ofText _, (ColumnLayout.readsBack _).plain, plain_ofText _,
      hsubcomparator.plain, plain_ofText _, plain_ofText _, hcolumns.plain, nofun⟩

theorem KeyspaceDef.readsBack (k : KeyspaceDef) : ReadsBack ofJson? toJson k := by
  have htables : ReadsBack (asList? TableDef.ofJson?) (ofList TableDef.toJson) k.tables :=
    .list fun t _ => t.readsBack
  constructor
  · refine bind_of_some (fields?_ofFields rfl (by decide)) <|
      (ReadsBack.text k.name).needed <| (ReadsBack.text k.strategy).needed <|
      (ReadsBack.nat k.replication.toNat_lt).needed <| htables.needed ?_
    rw [UInt32.ofNat_toNat]
    rfl
  · refine plain_ofFields ?_
    simp only [List.forall_mem_cons]
    exact ⟨plain_ofText _, plain_ofText _, plain_ofNat _, htables.plain, nofun⟩

/-- Every definition is read from the text that is written of it. -/
theorem KeyspaceDef.reread (k : KeyspaceDef) : (parse? k.toJson.text >>= ofJson?) = some k :=
  k.readsBack.ofText

end WideColumn
