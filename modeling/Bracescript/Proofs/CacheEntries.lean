import Bracescript.Cache
import Bracescript.Proofs.SettledPaths

/-!
# Keys and entries of a cache

The text behind a key tells the content and every option apart, and what is packed into an entry can be unpacked again.
-/

namespace Bracescript

/-! ## Keys -/

theorem Bytes.ofHex_hex : ∀ n : Fin 256, ofHex (hex 2 n.val) = [n.val.toUInt8] ∧ (hex 2 n.val).length = 2 := by
  decide +kernel

theorem Bytes.ofHex_toHex (bs : Bytes) : ofHex (toHex bs) = bs := by
  induction bs with
  | nil => rfl
  | cons b bs ih =>
    obtain ⟨hvalue, hlength⟩ := ofHex_hex ⟨b.toNat, b.toNat_lt⟩
    dsimp only at hvalue hlength
    rw [show b.toNat.toUInt8 = b by simp] at hvalue
    obtain ⟨x, y, hhex⟩ : ∃ x y, hex 2 b.toNat = [x, y] := by
      match hex 2 b.toNat, hlength with
      | [x, y], _ => exact ⟨x, y, rfl⟩
    rw [hhex] at hvalue
    have hb : (hexValue x * 16 + hexValue y).toUInt8 = b := (List.cons.inj hvalue).1
    rw [toHex, List.flatMap_cons, hhex, List.cons_append, List.cons_append, List.nil_append, ofHex, hb]
    exact congrArg (b :: ·) ih

theorem Bytes.toHex_injective {bs bs' : Bytes} (h : bs.toHex = bs'.toHex) : bs = bs' := by
  rw [← ofHex_toHex bs, h, ofHex_toHex]

theorem Sha256.length_digest (text : Bytes) : (digest text).length = 32 := by
  simp [digest, Words.bytes, bigEndian]

/-- Two texts with a separator each are the same if and only if their parts are, provided that the separator does not
occur again behind it. -/
theorem Bytes.cut_last_inj {sep : UInt8} {a b x y : Bytes} (hx : sep ∉ x) (hy : sep ∉ y) (h : a ++ sep :: x = b ++ sep :: y) :
    a = b ∧ x = y := by
  have hsplit := congrArg (split sep) h
  rw [split_append, split_append, split_of_not_mem hx, split_of_not_mem hy] at hsplit
  obtain rfl : x = y := by simpa using (List.append_inj' hsplit rfl).2
  exact ⟨List.append_cancel_right h, rfl⟩

namespace ModuleFormat

theorem ofNat_tells : ∀ n : Fin 256, (Bytes.ofNat n.val).toNat? = some n.val ∧ 0 ∉ Bytes.ofNat n.val := by decide +kernel

theorem zero_notin_name (m : ModuleFormat) : 0 ∉ m.name := by
  cases m with
  | esm => decide
  | cjs => decide
  | other n =>
    simp only [name, List.mem_append, not_or]
    exact ⟨⟨by decide, (ofNat_tells ⟨n.toNat, n.toNat_lt⟩).2⟩, by decide⟩

theorem length_name_other (n : UInt8) : 13 ≤ (other n).name.length := by
  rw [name, List.length_append, List.length_append, show ("ModuleFormat(" : Bytes).length = 13 by decide]
  omega

theorem name_injective {m m' : ModuleFormat} (h : m.name = m'.name) : m = m' := by
  have hlength := congrArg List.length h
  have hesm : esm.name.length = 3 := by decide
  have hcjs : cjs.name.length = 3 := by decide
  cases m with
  | esm =>
    cases m' with
    | esm => rfl
    | cjs => exact absurd h (by decide)
    | other n' =>
      have := length_name_other n'
      omega
  | cjs =>
    cases m' with
    | esm => exact absurd h (by decide)
    | cjs => rfl
    | other n' =>
      have := length_name_other n'
      omega
  | other n =>
    have := length_name_other n
    cases m' with
    | esm => omega
    | cjs => omega
    | other n' =>
      simp only [name, List.append_cancel_left_eq, List.append_cancel_right_eq] at h
      have htells := (ofNat_tells ⟨n.toNat, n.toNat_lt⟩).1
      dsimp only at htells
      rw [h, (ofNat_tells ⟨n'.toNat, n'.toNat_lt⟩).1] at htells
      rw [UInt8.toNat_inj.mp (Option.some.inj htells)]

end ModuleFormat

namespace EmitOptions

/-- The text whose digest is a key. -/
def keyText (o : EmitOptions) (contentHash : Bytes) : Bytes :=
  let parts := [Release.current.version, o.runtime, o.format.name].flatMap fun part => part ++ [0]
  contentHash ++ parts ++ [if o.debug then 1 else 0]

theorem digest_eq (o : EmitOptions) (contentHash : Bytes) : o.digest contentHash = Sha256.digest (o.keyText contentHash) := rfl

/-- The text behind a key tells the content and every option, whatever bytes the runtime's name has. -/
theorem keyText_injective {o o' : EmitOptions} {contentHash contentHash' : Bytes}
    (hlength : contentHash.length = contentHash'.length) (h : o.keyText contentHash = o'.keyText contentHash') :
    contentHash = contentHash' ∧ o = o' := by
  simp only [keyText, List.flatMap_cons, List.flatMap_nil, List.append_assoc, List.append_nil] at h
  obtain ⟨rfl, hrest⟩ := List.append_inj h hlength
  have hrest : (o.runtime ++ 0 :: o.format.name) ++ [0, if o.debug then 1 else 0] =
      (o'.runtime ++ 0 :: o'.format.name) ++ [0, if o'.debug then 1 else 0] := by
    simpa using List.append_cancel_left (List.append_cancel_left hrest)
  obtain ⟨hfront, hflag⟩ := List.append_inj' hrest rfl
  obtain ⟨hruntime, hname⟩ := Bytes.cut_last_inj o.format.zero_notin_name o'.format.zero_notin_name hfront
  have hdebug : o.debug = o'.debug := by
    cases hd : o.debug <;> cases hd' : o'.debug <;> simp [hd, hd'] at hflag ⊢
  have hformat := ModuleFormat.name_injective hname
  cases o
  cases o'
  dsimp only at hruntime hformat hdebug
  exact ⟨rfl, by rw [hruntime, hformat, hdebug]⟩

end EmitOptions

/-! ## Packed values -/

namespace Packed

variable {t bs : Bytes} {v : Packed} {k n : Nat}

theorem take_append (bs rest : Bytes) : take bs.length (bs ++ rest) = .ok (bs, rest) := by simp [take]

theorem length_spread (n v : Nat) : (spread n v).length = n := by
  induction n with
  | zero => rfl
  | succ n ih => simp [spread, ih]

theorem foldl_spread (n v front : Nat) :
    (spread n v).foldl (fun n b => n * 256 + b.toNat) front = front * Nat.pow 256 n + v % Nat.pow 256 n := by
  induction n generalizing front with
  | zero => simp [spread, Nat.mod_one]
  | succ n ih =>
    have hbyte : (v / Nat.pow 256 n % 256).toUInt8.toNat = v / Nat.pow 256 n % 256 := by
      simp
    rw [spread, List.foldl_cons, ih, hbyte]
    have hpow : v % Nat.pow 256 (n + 1) = v % Nat.pow 256 n + Nat.pow 256 n * (v / Nat.pow 256 n % 256) := Nat.mod_pow_succ
    rw [hpow, Nat.add_mul, Nat.mul_assoc, show 256 * Nat.pow 256 n = Nat.pow 256 (n + 1) from (Nat.pow_succ' ..).symm,
      Nat.mul_comm (v / Nat.pow 256 n % 256)]
    omega

theorem natOf_spread (h : n < Nat.pow 256 k) : natOf (spread k n) = n := by
  rw [natOf, foldl_spread, Nat.mod_eq_of_lt h]
  omega

theorem number_spread (h : n < Nat.pow 256 k) (rest : Bytes) : number k (spread k n ++ rest) = .ok (n, rest) := by
  have htake := take_append (spread k n) rest
  rw [length_spread] at htake
  simp [number, htake, Except.map, natOf_spread h]

theorem sized_spread (h : t.length < Nat.pow 256 k) (rest : Bytes) :
    sized k (spread k t.length ++ (t ++ rest)) = .ok (t, rest) := by
  rw [sized, number_spread h]
  exact take_append t rest

/-- Bytes that are read as a value which holds no others, whatever follows. -/
def Tells (bs : Bytes) (v : Packed) : Prop :=
  ∀ rest, ∃ code body, bs ++ rest = code :: body ∧ scalar? code body = some (.ok (v, rest))

theorem scalar?_short (h : n < 32) (bs : Bytes) :
    scalar? (0xa0 + n).toUInt8 bs = some ((take n bs).map fun (b, rest) => (text b, rest)) := by
  have hcode : (0xa0 + n).toUInt8.toNat = 0xa0 + n := by
    simp
    omega
  have hlow : ¬(0xa0 + n).toUInt8 ≤ 0x7f := by
    rw [UInt8.le_iff_toNat_le, hcode, show (0x7f : UInt8).toNat = 0x7f from rfl]
    omega
  have hhigh : ¬0xe0 ≤ (0xa0 + n).toUInt8 := by
    rw [UInt8.le_iff_toNat_le, hcode, show (0xe0 : UInt8).toNat = 0xe0 from rfl]
    omega
  have hfrom : 0xa0 ≤ (0xa0 + n).toUInt8 := by
    rw [UInt8.le_iff_toNat_le, hcode, show (0xa0 : UInt8).toNat = 0xa0 from rfl]
    omega
  have hto : (0xa0 + n).toUInt8 ≤ 0xbf := by
    rw [UInt8.le_iff_toNat_le, hcode, show (0xbf : UInt8).toNat = 0xbf from rfl]
    omega
  unfold scalar?
  simp only [hlow, hhigh, hfrom, hto, if_false, decide_true, Bool.and_self, if_true, hcode]
  rw [Nat.add_sub_cancel_left]

theorem tells_text (h : t.length < Nat.pow 2 32) : Tells (encodeText t) (.text t) := by
  intro rest
  have hsized : ∀ k, t.length < Nat.pow 256 k →
      (sized k (spread k t.length ++ (t ++ rest))).map (fun (b, rest) => (text b, rest)) = .ok (text t, rest) := by
    intro k hk
    rw [sized_spread hk]
    rfl
  unfold encodeText
  dsimp only
  split
  · rename_i hshort
    refine ⟨_, t ++ rest, rfl, ?_⟩
    rw [scalar?_short hshort, take_append]
    rfl
  · split
    · rename_i hbyte
      exact ⟨0xd9, _, by simp, congrArg some (hsized 1 hbyte)⟩
    · split
      · rename_i hword
        exact ⟨0xda, _, by simp, congrArg some (hsized 2 hword)⟩
      · exact ⟨0xdb, _, by simp, congrArg some (hsized 4 h)⟩

theorem tells_word (h : n < 65536) : Tells (encodeWord n) (.int n) := by
  intro rest
  refine ⟨0xcd, spread 2 n ++ rest, rfl, ?_⟩
  have hnumber : (number 2 (spread 2 n ++ rest)).map (fun p => (int p.1, p.2)) = .ok (int n, rest) := by
    rw [number_spread h]
    rfl
  exact congrArg some hnumber

theorem tells_seconds (n : Nat) : Tells (encodeSeconds n) (.custom 0xff (spread 4 n)) := by
  intro rest
  refine ⟨0xd6, 0xff :: (spread 4 n ++ rest), rfl, ?_⟩
  have htagged : tagged 4 (0xff :: (spread 4 n ++ rest)) = .ok (.custom 0xff (spread 4 n), rest) := by
    have htake := take_append (spread 4 n) rest
    rw [length_spread] at htake
    have htag : take 1 (0xff :: (spread 4 n ++ rest)) = .ok ([0xff], spread 4 n ++ rest) := take_append [0xff] _
    rw [tagged, htag]
    dsimp only
    rw [htake]
    rfl
  exact congrArg some htagged

theorem Tells.pos (h : Tells bs v) : 0 < bs.length := by
  obtain ⟨code, body, hbs, -⟩ := h []
  rw [List.append_nil] at hbs
  simp [hbs]

/-- Values in a row are read one after the other. -/
theorem values_tells {parts : List (Bytes × Packed)} (h : ∀ part ∈ parts, Tells part.1 part.2) {fuel : Nat}
    (hfuel : parts.length ≤ fuel) (rest : Bytes) :
    values fuel parts.length (parts.flatMap Prod.fst ++ rest) = .ok (parts.map Prod.snd, rest) := by
  induction parts generalizing fuel with
  | nil => cases fuel <;> rfl
  | cons part parts ih =>
    obtain ⟨bs, v⟩ := part
    obtain ⟨fuel, rfl⟩ : ∃ left, fuel = left + 1 := ⟨fuel - 1, by simp at hfuel; omega⟩
    obtain ⟨code, body, hbs, hscalar⟩ := h (bs, v) List.mem_cons_self (parts.flatMap Prod.fst ++ rest)
    dsimp only at hbs hscalar
    have hmore := ih (fun part hpart => h part (List.mem_cons_of_mem _ hpart)) (by simpa using hfuel)
    rw [List.flatMap_cons, List.append_assoc, hbs, List.length_cons, values]
    simp only [hscalar, hmore, List.map_cons]

theorem length_le_flatMap {parts : List (Bytes × Packed)} (h : ∀ part ∈ parts, Tells part.1 part.2) :
    parts.length ≤ (parts.flatMap Prod.fst).length := by
  induction parts with
  | nil => simp
  | cons part parts ih =>
    have hpos := (h part List.mem_cons_self).pos
    have hmore := ih fun part hpart => h part (List.mem_cons_of_mem _ hpart)
    rw [List.flatMap_cons, List.length_append, List.length_cons]
    omega

/-- A table of five fields. -/
theorem decode_table {parts : List (Bytes × Packed)} (h : ∀ part ∈ parts, Tells part.1 part.2) (hlength : parts.length = 10) :
    decode (0x85 :: parts.flatMap Prod.fst) = .ok (.table (values.pairs (parts.map Prod.snd))) := by
  have hvalues := values_tells h (Nat.le_succ_of_le (length_le_flatMap h)) []
  rw [List.append_nil, hlength] at hvalues
  have hscalar : ∀ bs, scalar? 0x85 bs = none := fun _ => rfl
  have hcount : ∀ bs, count 0x85 bs = .ok ((true, 5), bs) := fun _ => rfl
  have hnone : ∀ fuel, values fuel 0 [] = .ok ([], []) := fun fuel => by cases fuel <;> rfl
  rw [decode, List.length_cons, values]
  simp only [hscalar, hcount, if_true, hvalues, hnone]

end Packed

namespace CacheEntry

open Packed in
/-- The values of an entry, with the bytes that tell them. -/
def parts (e : CacheEntry) : List (Bytes × Packed) :=
  [(encodeText "Schema", .text "Schema"), (encodeWord e.schema, .int e.schema),
    (encodeText "Path", .text "Path"), (encodeText e.path, .text e.path),
    (encodeText "Compiler", .text "Compiler"), (encodeText e.compiler, .text e.compiler),
    (encodeText "Output", .text "Output"), (encodeText e.output, .text e.output),
    (encodeText "Created", .text "Created"), (encodeSeconds 0, .custom 0xff (spread 4 0))]

theorem encode_eq (e : CacheEntry) : e.encode = 0x85 :: e.parts.flatMap Prod.fst := by
  simp [encode, parts]

theorem setFields_parts (e : CacheEntry) (hschema : e.schema < 65536) :
    setFields {} (Packed.values.pairs (e.parts.map Prod.snd)) = .ok e := by
  have hnumber : ((e.schema : Int) % 65536).toNat = e.schema := by omega
  have hset : ∀ (x : CacheEntry) (n : Int), x.setField "Schema" (.int n) = .ok { x with schema := (n % 65536).toNat } :=
    fun _ _ => rfl
  have hpath : ∀ (x : CacheEntry) (t : Bytes), x.setField "Path" (.text t) = .ok { x with path := t } := fun _ _ => rfl
  have hcompiler : ∀ (x : CacheEntry) (t : Bytes), x.setField "Compiler" (.text t) = .ok { x with compiler := t } :=
    fun _ _ => rfl
  have houtput : ∀ (x : CacheEntry) (t : Bytes), x.setField "Output" (.text t) = .ok { x with output := t } :=
    fun _ _ => rfl
  have hcreated : ∀ x : CacheEntry, x.setField "Created" (.custom 0xff (Packed.spread 4 0)) = .ok x := fun _ => rfl
  simp only [parts, List.map_cons, List.map_nil, Packed.values.pairs, setFields, textOf, hset, hpath, hcompiler, houtput,
    hcreated, hnumber]

/-- What is packed can be unpacked, as long as the sizes of its texts can be told. -/
theorem decode_encode (e : CacheEntry) (hschema : e.schema < 65536) (hpath : e.path.length < Nat.pow 2 32)
    (hcompiler : e.compiler.length < Nat.pow 2 32) (houtput : e.output.length < Nat.pow 2 32) :
    decode e.encode = .ok e := by
  have hname : ∀ name : Bytes, name.length < 32 → name.length < Nat.pow 2 32 := by
    intro name hname
    exact Nat.lt_trans hname (by decide)
  have hparts : ∀ part ∈ e.parts, Packed.Tells part.1 part.2 := by
    simp only [parts, List.forall_mem_cons]
    refine ⟨Packed.tells_text (hname _ (by decide)), Packed.tells_word hschema, Packed.tells_text (hname _ (by decide)),
      Packed.tells_text hpath, Packed.tells_text (hname _ (by decide)), Packed.tells_text hcompiler,
      Packed.tells_text (hname _ (by decide)), Packed.tells_text houtput, Packed.tells_text (hname _ (by decide)),
      Packed.tells_seconds 0, by simp⟩
  rw [decode, encode_eq, Packed.decode_table hparts rfl]
  exact setFields_parts e hschema

end CacheEntry

end Bracescript
