import Mathlib.Data.List.Basic
import HtmlTemplate.Eval.Reported
import HtmlTemplate.Expr.Literal
import HtmlTemplate.Host.Defaults
import HtmlTemplate.Proofs.Context.Frames
import HtmlTemplate.Proofs.Rules.Basic

/-! Percent-encoding can be undone. A text that is encoded piece by piece between its marks is encoded as a
whole, byte by byte, and decoding gives it back. -/

namespace HtmlTemplate

namespace Percent

/-- The bytes that an encoded text stands for: a percent sign with two digits is one byte, every other
character is its own bytes. -/
def decodeBytes : List Char → List UInt8
  | '%' :: high :: low :: text =>
    if CharClass.isHexDigit high && CharClass.isHexDigit low then
      UInt8.ofNat (16 * Literal.hexValue high + Literal.hexValue low) :: decodeBytes text
    else String.utf8EncodeChar '%' ++ decodeBytes (high :: low :: text)
  | char :: text => String.utf8EncodeChar char ++ decodeBytes text
  | [] => []

/-- Reads an encoded text back, if it stands for the bytes of a text. -/
def decode (text : String) : Option String := String.fromUTF8? (decodeBytes text.toList).toByteArray

/-- A text with the unreserved characters and some marks as they are, and all other bytes encoded. -/
def encoded (marks : List Char) (text : String) : String :=
  String.ofList (encodeBytes (fun char => isUnreserved char || marks.contains char) text.toList)

/-! Bytes. -/

theorem bytes_cons (char : Char) (text : List Char) :
    bytes (char :: text) = String.utf8EncodeChar char ++ bytes text :=
  List.flatMap_cons

/-- What becomes of a character: it stays if it is ASCII and kept, else its bytes are encoded. -/
theorem encodeBytes_eq (kept : Char → Bool) (text : List Char) :
    encodeBytes kept text = text.flatMap fun char =>
      if char.toNat < 128 ∧ kept char = true then [char] else (String.utf8EncodeChar char).flatMap encodeByte := by
  unfold encodeBytes bytes
  rw [List.flatMap_assoc]
  refine List.flatMap_congr fun char _ => ?_
  by_cases ascii : char.toNat < 128
  · have low : UInt8.ofNat char.toNat < 128 := by
      rw [UInt8.lt_iff_toNat_lt, toNat_ofNat_ascii ascii]
      exact ascii
    rw [utf8EncodeChar_ascii ascii, List.flatMap_singleton, List.flatMap_singleton, isKept,
      toNat_ofNat_ascii ascii, Char.ofNat_toNat]
    simp only [low, ascii, true_and, decide_true, Bool.true_and]
  · rw [if_neg fun both => ascii both.1]
    refine List.flatMap_congr fun byte member => ?_
    have above : ¬ byte < 128 := by
      rw [UInt8.lt_iff_toNat_lt]
      exact Nat.not_lt_of_le (utf8EncodeChar_beyond ascii member)
    simp [isKept, above]

theorem encodeBytes_append (kept : Char → Bool) (first second : List Char) :
    encodeBytes kept (first ++ second) = encodeBytes kept first ++ encodeBytes kept second := by
  simp only [encodeBytes_eq, List.flatMap_append]

/-- Only the characters of a text count for what is kept in it. -/
theorem encodeBytes_congr {kept other : Char → Bool} {text : List Char}
    (same : ∀ char ∈ text, kept char = other char) : encodeBytes kept text = encodeBytes other text := by
  simp only [encodeBytes_eq]
  exact List.flatMap_congr fun char member => by rw [same char member]

/-! From mark to mark. -/

section

variable {class? : Char → Bool}

theorem firstOffset?_none {text : List Char} (none : firstOffset? class? text = none) :
    ∀ char ∈ text, class? char = false := by
  induction text with
  | nil => nofun
  | cons char rest step =>
    rw [firstOffset?] at none
    split at none
    · cases none
    · rename_i other
      exact List.forall_mem_cons.mpr ⟨Bool.eq_false_iff.mpr other, step (Option.map_eq_none_iff.mp none)⟩

/-- The offset of a mark is the length of what comes before it. -/
theorem firstOffset?_some {text : List Char} {offset : Nat} (found : firstOffset? class? text = some offset) :
    ∃ before mark after, text = before ++ mark :: after ∧ (∀ char ∈ before, class? char = false) ∧
      class? mark = true ∧ offset = byteLength before := by
  induction text generalizing offset with
  | nil => cases found
  | cons char rest step =>
    rw [firstOffset?] at found
    split at found
    · rename_i here
      exact ⟨[], char, rest, rfl, nofun, here, (Option.some.inj found).symm⟩
    · rename_i other
      obtain ⟨later, further, rfl⟩ := Option.map_eq_some_iff.mp found
      obtain ⟨before, mark, after, rfl, plain, here, rfl⟩ := step further
      exact ⟨char :: before, mark, after, rfl,
        List.forall_mem_cons.mpr ⟨Bool.eq_false_iff.mpr other, plain⟩, here, rfl⟩

end

variable {encode : List Char → List Char} {marks : List Char}

/-- Up to a mark, the mark, and what comes after it: none of the cuts is inside of a character. -/
theorem encodeBetween_mark (ascii : ∀ mark ∈ marks, mark.toNat < 128) {before after : List Char} {mark : Char}
    (found : firstOffset? marks.contains (before ++ mark :: after) = some (byteLength before))
    (isMark : mark ∈ marks) :
    encodeBetween encode marks (before ++ mark :: after) =
      (encodeBetween encode marks after).map fun more => encode before ++ [mark] ++ more := by
  have one := byteLength_ascii (ascii mark isMark)
  have piece : takeBytes? (byteLength before) (before ++ mark :: after) = some before := takeBytes?_append ..
  have cut : sliceBytes? (before ++ mark :: after) (byteLength before) (byteLength before + 1) = some [mark] := by
    have width : byteLength before + 1 - byteLength before = byteLength [mark] := by omega
    rw [sliceBytes?, if_pos (Nat.le_succ _), dropBytes?_append, width]
    exact takeBytes?_append [mark] after
  have rest : dropBytes? (byteLength before + 1) (before ++ mark :: after) = some after := by
    have width : byteLength before + 1 = byteLength (before ++ [mark]) := by rw [byteLength_append, one]
    rw [width, List.append_cons before mark after]
    exact dropBytes?_append (before ++ [mark]) after
  rw [encodeBetween]
  simp only [found]
  split
  · rename_i first second third isPiece isMark isRest
    obtain rfl := Option.some.inj (piece.symm.trans isPiece)
    obtain rfl := Option.some.inj (cut.symm.trans isMark)
    obtain rfl := Option.some.inj (rest.symm.trans isRest)
    rfl
  · rename_i others
    exact (others _ _ _ piece cut rest).elim

/-- Encoding piece by piece is encoding as a whole. -/
theorem encodeBetween_eq (ascii : ∀ mark ∈ marks, mark.toNat < 128)
    (encodes : ∀ piece, encode piece = Percent.encode piece) (text : List Char) :
    encodeBetween encode marks text =
      some (encodeBytes (fun char => isUnreserved char || marks.contains char) text) := by
  have plain {piece : List Char} (none : ∀ char ∈ piece, marks.contains char = false) :
      encode piece = encodeBytes (fun char => isUnreserved char || marks.contains char) piece := by
    rw [encodes]
    exact encodeBytes_congr fun char member => by rw [none char member, Bool.or_false]
  induction size : text.length using Nat.strongRecOn generalizing text with
  | ind length step =>
    cases found : firstOffset? marks.contains text with
    | none =>
      rw [encodeBetween, found]
      exact congrArg some (plain (firstOffset?_none found))
    | some offset =>
      obtain ⟨before, mark, after, rfl, none, contained, rfl⟩ := firstOffset?_some found
      have isMark : mark ∈ marks := List.contains_iff_mem.mp contained
      have shorter : after.length < length := by
        rw [← size, List.length_append, List.length_cons]
        omega
      have itself : encodeBytes (fun char => isUnreserved char || marks.contains char) [mark] = [mark] := by
        rw [encodeBytes_eq, List.flatMap_singleton]
        exact if_pos ⟨ascii mark isMark, by rw [contained, Bool.or_true]⟩
      rw [encodeBetween_mark ascii found isMark, step after.length shorter after rfl, plain none, Option.map_some,
        List.append_cons before mark after, encodeBytes_append, encodeBytes_append, itself]

/-! Reading back. -/

theorem decodeBytes_cons {char : Char} (plain : char ≠ '%') (text : List Char) :
    decodeBytes (char :: text) = String.utf8EncodeChar char ++ decodeBytes text := by
  rw [decodeBytes.eq_def]
  split <;> simp_all

/-- The digits of a byte are read back to the byte. -/
theorem digit_read : ∀ number < 16, CharClass.isHexDigit (upperHexDigit number) = true ∧
    Literal.hexValue (upperHexDigit number) = number := by
  decide

theorem decodeBytes_encodeByte (byte : UInt8) (text : List Char) :
    decodeBytes (encodeByte byte ++ text) = byte :: decodeBytes text := by
  have bound := byte.toNat_lt
  obtain ⟨isHigh, high⟩ := digit_read (byte.toNat / 16) (by omega)
  obtain ⟨isLow, low⟩ := digit_read (byte.toNat % 16) (by omega)
  have whole : 16 * (byte.toNat / 16) + byte.toNat % 16 = byte.toNat := Nat.div_add_mod ..
  change decodeBytes ('%' :: _ :: _ :: text) = _
  rw [decodeBytes, isHigh, isLow, high, low, whole, UInt8.ofNat_toNat]
  rfl

theorem decodeBytes_flatMap (encoded : List UInt8) (text : List Char) :
    decodeBytes (encoded.flatMap encodeByte ++ text) = encoded ++ decodeBytes text := by
  induction encoded with
  | nil => rfl
  | cons byte rest step =>
    rw [List.flatMap_cons, List.append_assoc, decodeBytes_encodeByte, step, List.cons_append]

/-- Where no percent sign is kept, an encoded text is read back to its bytes. -/
theorem decodeBytes_encodeBytes {kept : Char → Bool} (percent : kept '%' = false) (text : List Char) :
    decodeBytes (encodeBytes kept text) = bytes text := by
  rw [encodeBytes_eq]
  induction text with
  | nil => rfl
  | cons char rest step =>
    rw [List.flatMap_cons, bytes_cons]
    split
    · rename_i stays
      have other : char ≠ '%' := by
        rintro rfl
        rw [percent] at stays
        cases stays.2
      rw [List.singleton_append, decodeBytes_cons other, step]
    · rw [decodeBytes_flatMap, step]

theorem fromUTF8?_bytes (text : String) : String.fromUTF8? (bytes text.toList).toByteArray = some text := by
  have whole : (bytes text.toList).toByteArray = text.toByteArray := String.utf8Encode_toList
  have valid : (bytes text.toList).toByteArray.IsValidUTF8 := whole ▸ text.isValidUTF8
  rw [String.fromUTF8?, dif_pos valid]
  exact congrArg some (String.toByteArray_inj.mp whole)

end Percent

/-! The functions as templates call them. -/

namespace Context

variable {context : Context} {name : String}

/-- What the innermost scope knows is found there. -/
theorem find?_of_current (known : (context.binding? context.current name).isSome = true) :
    context.find? name = some context.current := by
  have last (frames : List Frame) (scope : Frame) (here : scope.bindings.contains name = true) :
      findIn name (frames ++ [scope]) = some frames.length := by
    induction frames with
    | nil => simp [findIn, here]
    | cons frame rest step => simp only [List.cons_append, findIn, step, List.length_cons]
  have isOpen : context.current < context.frames.length := lt_depth_of_binding? known
  have some : context.frames ≠ [] := List.ne_nil_of_length_pos (Nat.zero_lt_of_lt isOpen)
  rw [binding?_eq, current, depth, ← List.getLast?_eq_getElem?, List.getLast?_eq_some_getLast some] at known
  have found := last context.frames.dropLast (context.frames.getLast some) known
  rwa [List.dropLast_append_getLast some, List.length_dropLast] at found

theorem current_bind (context : Context) (name : String) (binding : Binding) :
    (context.bind name binding).current = context.current :=
  congrArg (· - 1) (depth_modifyFrame ..)

theorem isOpen_bind (opened : 0 < context.depth) (name : String) (binding : Binding) :
    0 < (context.bind name binding).depth := by
  rwa [bind, store, depth_modifyFrame]

/-- Functions under other names leave a name what it is. -/
theorem binding?_setFunctions_of_notMem {functions : List (String × HostFunction)}
    (other : name ∉ functions.map Prod.fst) :
    (context.setFunctions functions).binding? (context.setFunctions functions).current name =
      context.binding? context.current name := by
  induction functions generalizing context with
  | nil => rfl
  | cons function rest step =>
    obtain ⟨different, others⟩ := List.ne_and_not_mem_of_not_mem_cons other
    change ((context.setFunction _ _).setFunctions rest).binding? _ name = _
    exact (step others).trans ((congrArg (Context.binding? _ · name) (current_bind ..)).trans
      (binding?_store_of_ne (fun same => different same.2) _))

/-- Of functions under different names, each is found under its own. -/
theorem binding?_setFunctions {functions : List (String × HostFunction)} {function : HostFunction}
    (opened : 0 < context.depth) (different : (functions.map Prod.fst).Nodup)
    (member : (name, function) ∈ functions) :
    (context.setFunctions functions).binding? (context.setFunctions functions).current name =
      some (.function function) := by
  induction functions generalizing context with
  | nil => cases member
  | cons first rest step =>
    obtain ⟨apart, different⟩ := List.nodup_cons.mp different
    change ((context.setFunction first.1 first.2).setFunctions rest).binding? _ name = _
    rcases List.mem_cons.mp member with rfl | later
    · refine (binding?_setFunctions_of_notMem apart).trans ?_
      rw [setFunction, current_bind]
      exact binding?_store_self (Nat.sub_lt opened Nat.one_pos) name _
    · exact step (isOpen_bind opened ..) different later

end Context

/-- A call of a function of the host with a text. -/
def Expr.callWith (name text : String) : Expr :=
  .binary .call (.name name) (.bracketed .round (.literal (.text text)))

theorem eval_callWith {context : Context} {name : String} {function : HostFunction}
    (bound : context.binding? context.current name = some (.function function)) (mode : EvalMode) (text : String) :
    Eval.eval mode (.callWith name text) context =
      Eval.call (.function function none) [.text text] context := by
  have found : context.find? name = some context.current :=
    Context.find?_of_current (by rw [bound]; rfl)
  have named : Eval.eval mode.operand (.name name) context = (.ok (.function function none), context) := by
    rw [Eval.eval, Eval.lookupName_eq, found, Option.elim_some, bound, Eval.meaning]
  have values : Eval.evalItems mode.operand [.literal (.text text)] context = (.ok [.text text], context) := by
    simp only [Eval.evalItems, Eval.eval]
    rfl
  have items : Expr.items (.bracketed .round (.literal (.text text))) = [.literal (.text text)] := rfl
  rw [Expr.callWith, Eval.eval, Rules.bind_eq, named]
  dsimp only
  rw [items, Rules.bind_eq, values]

namespace Percent

/-- The functions that encode, and the marks that each of them keeps. -/
def keeping : List (String × List Char) := [("encodeURI", addressMarks), ("encodeURIComponent", componentMarks)]

theorem ascii_marks : ∀ function ∈ keeping, ∀ mark ∈ function.2, mark.toNat < 128 := by
  simp [keeping, addressMarks, componentMarks]

theorem percent_encoded : ∀ function ∈ keeping,
    (isUnreserved '%' || function.2.contains '%') = false := by
  decide

/-- Percent-encoding can be undone. Given a way to encode all bytes of a text but the unreserved characters,
what a template gets from `encodeURI` and `encodeURIComponent` for a text is the text with the unreserved
characters and the marks of the function as they are and every other byte encoded; decoding gives the text
back. -/
theorem encoding_reversible {encode : List Char → List Char}
    (encodes : ∀ piece, encode piece = Percent.encode piece) {name : String} {marks : List Char}
    (function : (name, marks) ∈ keeping) (text : String) :
    (encodeBetween encode marks text.toList).isSome = true ∧
      (∃ encoding, (name, encoding) ∈ Host.encodings encode ∧
        ∀ receiver, encoding receiver [.text text] = .ok (.text (encoded marks text))) ∧
      (∀ mode context, 0 < Context.depth context →
        let opened := context.setFunctions (Host.encodings encode)
        Eval.eval mode (.callWith name text) opened = (.ok (.owned (.text (encoded marks text))), opened)) ∧
      decode (encoded marks text) = some text := by
  have between := encodeBetween_eq (ascii_marks _ function) encodes text.toList
  have whole : encodeKeeping encode marks text = encoded marks text := by
    rw [encodeKeeping, between]
    rfl
  have member : (name, Host.encoding (encodeKeeping encode marks)) ∈ Host.encodings encode := by
    simp only [keeping, List.mem_cons, Prod.mk.injEq, List.not_mem_nil, or_false] at function
    rcases function with ⟨rfl, rfl⟩ | ⟨rfl, rfl⟩
    · exact List.mem_cons_self
    · exact List.mem_cons_of_mem _ List.mem_cons_self
  refine ⟨by rw [between]; rfl, ⟨_, member, fun receiver => by rw [← whole]; rfl⟩, ?_, ?_⟩
  · intro mode context opened
    have different : ((Host.encodings encode).map Prod.fst).Nodup := by
      change ["encodeURI", "encodeURIComponent"].Nodup
      decide
    dsimp only
    rw [eval_callWith (Context.binding?_setFunctions opened different member), ← whole]
    rfl
  · rw [decode, encoded, String.toList_ofList, decodeBytes_encodeBytes (percent_encoded _ function)]
    exact fromUTF8?_bytes text

/-- A text with marks that a component may not keep, with some that it may, and with a character of two bytes. -/
def query : String := "a b&c=d/é(x)!"

theorem query_encoded :
    (∀ piece, Percent.encode piece = Percent.encode piece) ∧ ("encodeURIComponent", componentMarks) ∈ keeping ∧
      encoded componentMarks query = "a%20b%26c%3Dd%2F%C3%A9(x)!" ∧
      (Eval.eval .strict (.callWith "encodeURIComponent" query) (Context.new.setFunctions Host.defaults)).1 =
        .ok (.owned (.text "a%20b%26c%3Dd%2F%C3%A9(x)!")) ∧
      decode "a%20b%26c%3Dd%2F%C3%A9(x)!" = some query := by
  have component : ("encodeURIComponent", componentMarks) ∈ keeping := List.mem_cons_of_mem _ List.mem_cons_self
  have written : encoded componentMarks query = "a%20b%26c%3Dd%2F%C3%A9(x)!" := by decide +kernel
  obtain ⟨-, -, called, read⟩ := @encoding_reversible Percent.encode (fun _ => rfl) _ _ component query
  rw [written] at called read
  exact ⟨fun _ => rfl, component, written, congrArg Prod.fst (called .strict Context.new Nat.one_pos), read⟩

end Percent

end HtmlTemplate
