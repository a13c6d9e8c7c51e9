import GlobeBins.Proofs.Checked
import GlobeBins.Proofs.Json.Numbers

namespace GlobeBins.Json

mutual

/-- What a value is read back as. -/
def Value.stored : Value → Value
  | .null => .null
  | .bool b => .bool b
  | .integer n => .integer n
  | .single x => if x.isFinite then .double x.written else .null
  | .double x => if x.isFinite then .double x else .null
  | .text s => .text s
  | .array items => .array (storedItems items)
  | .object members => .object (storedMembers members)

def storedItems : List Value → List Value
  | [] => []
  | v::vs => v.stored::storedItems vs

def storedMembers : List (String × Value) → List (String × Value)
  | [] => []
  | m::ms => (m.1,m.2.stored)::storedMembers ms

end

/-- What can be read back, if so many more containers may be opened. -/
inductive Value.Fits : Nat → Value → Prop
  | null {depth : Nat} : Fits depth .null
  | bool {depth : Nat} (b : Bool) : Fits depth (.bool b)
  | integer {depth : Nat} {n : Int} : -2^63 ≤ n → n < 2^64 → Fits depth (.integer n)
  | single {depth : Nat} (x : Binary32) : Fits depth (.single x)
  | double {depth : Nat} (x : Binary64) : Fits depth (.double x)
  | text {depth : Nat} (s : String) : Fits depth (.text s)
  | array {depth : Nat} {items : List Value} : (∀ v ∈ items,Fits depth v) →
    Fits (depth+1) (.array items)
  | object {depth : Nat} {members : List (String × Value)} : (members.map Prod.fst).Nodup →
    (∀ m ∈ members,Fits depth m.2) → Fits (depth+1) (.object members)

theorem storedItems_eq (vs : List Value) : storedItems vs = vs.map Value.stored := by
  induction vs with
  | nil => rfl
  | cons v vs ih => rw [storedItems,ih,List.map_cons]

theorem storedMembers_eq (ms : List (String × Value)) :
    storedMembers ms = ms.map fun m => (m.1,m.2.stored) := by
  induction ms with
  | nil => rfl
  | cons m ms ih => rw [storedMembers,ih,List.map_cons]

/-- The text begins with a character that neither is blank nor closes a container. -/
def Opens (s : List Char) : Prop := ∃ c tail,s = c::tail ∧ isBlank c = false ∧ c ≠ ']' ∧ c ≠ '\x7d'

/-- The text of a value is read, whatever stands behind it, unless that goes on like a number. -/
structure Value.Reads (depth : Nat) (v : Value) : Prop where
  opens : Opens v.chars
  reads (fuel : Nat) (rest : List Char) : 2*v.chars.length ≤ fuel → Stops continues rest →
    ∃ t,valueFrom fuel (v.chars++rest) = (t,some rest) ∧ Value.ofTree depth t = .ok v.stored

section

variable {s rest : List Char} {depth : Nat}

theorem Opens.skipBlank (h : Opens s) (rest : List Char) : skipBlank (s++rest) = s++rest := by
  obtain ⟨c,tail,rfl,shown,_⟩ := h
  simp [Json.skipBlank,shown]

/-- A reading step has fuel. -/
theorem Opens.fuel (h : Opens s) {fuel : Nat} (enough : 2*s.length ≤ fuel) :
    ∃ less,fuel = less+1 ∧ 2*s.length ≤ less+1 := by
  obtain ⟨c,tail,rfl,_⟩ := h
  rw [List.length_cons] at enough
  exact ⟨fuel-1,by omega,by rw [List.length_cons]; omega⟩

/-- A number begins with its sign or a digit. -/
theorem numberFrom_begins {r : Literal × List Char} (h : numberFrom s = some r) :
    ∃ c tail,s = c::tail ∧ ∀ d : Char,d.isDigit = false → d ≠ '-' → c ≠ d := by
  by_cases sign : s.head? = some '-'
  · obtain ⟨tail,rfl⟩ := List.head?_eq_some_iff.mp sign
    exact ⟨_,tail,rfl,fun d _ unsigned => unsigned.symm⟩
  · rw [numberFrom_plain sign] at h
    obtain ⟨c,tail,eq,digit⟩ := unsignedFrom_begins h
    refine ⟨c,tail,eq,?_⟩
    rintro _ letter _ rfl
    rw [letter] at digit
    cases digit

theorem numberFrom_opens {r : Literal × List Char} (h : numberFrom s = some r) : Opens s := by
  obtain ⟨c,tail,rfl,other⟩ := numberFrom_begins h
  refine ⟨c,tail,rfl,?_,other _ rfl (by decide),other _ rfl (by decide)⟩
  simp only [isBlank,Bool.or_eq_false_iff,beq_eq_false_iff_ne]
  exact ⟨⟨⟨other _ rfl (by decide),other _ rfl (by decide)⟩,other _ rfl (by decide)⟩,
    other _ rfl (by decide)⟩

theorem valueFrom_number {l : Literal} (fuel : Nat) (h : numberFrom s = some (l,rest)) :
    valueFrom (fuel+1) s = (.number l,some rest) := by
  have skip := (numberFrom_opens h).skipBlank []
  rw [List.append_nil] at skip
  obtain ⟨c,tail,rfl,other⟩ := numberFrom_begins h
  rw [valueFrom,skip]
  split
  next eq => exact absurd (List.cons.inj eq).1 (other _ rfl (by decide))
  next eq => exact absurd (List.cons.inj eq).1 (other _ rfl (by decide))
  next eq => exact absurd (List.cons.inj eq).1 (other _ rfl (by decide))
  next eq => exact absurd (List.cons.inj eq).1 (other _ rfl (by decide))
  next eq => exact absurd (List.cons.inj eq).1 (other _ rfl (by decide))
  next eq => exact absurd (List.cons.inj eq).1 (other _ rfl (by decide))
  next => rw [h]

namespace Value

variable {v w : Value}

theorem reads_number (depth : Nat) (h : ∀ rest,Stops continues rest →
    ∃ l,numberFrom (v.chars++rest) = some (l,rest) ∧ l.toValue? = some v.stored) : v.Reads depth := by
  obtain ⟨l,read,_⟩ := h [] nofun
  rw [List.append_nil] at read
  have opens := numberFrom_opens read
  refine ⟨opens,fun fuel rest enough stops => ?_⟩
  obtain ⟨fuel,rfl,_⟩ := opens.fuel enough
  obtain ⟨l,read,value⟩ := h rest stops
  exact ⟨_,valueFrom_number fuel read,by simp only [ofTree,value]⟩

theorem reads_null (depth : Nat) (same : v.chars = ['n','u','l','l']) (stored : v.stored = .null) :
    v.Reads depth := by
  have opens : Opens v.chars := ⟨'n',_,same,rfl,by decide,by decide⟩
  refine ⟨opens,fun fuel rest enough stops => ?_⟩
  obtain ⟨fuel,rfl,_⟩ := opens.fuel enough
  rw [same,stored]
  exact ⟨.null,rfl,rfl⟩

theorem reads_bool (depth : Nat) (b : Bool) : (bool b).Reads depth := by
  have opens : Opens (bool b).chars := by
    cases b
    · exact ⟨'f',_,rfl,rfl,by decide,by decide⟩
    · exact ⟨'t',_,rfl,rfl,by decide,by decide⟩
  refine ⟨opens,fun fuel rest enough stops => ?_⟩
  obtain ⟨fuel,rfl,_⟩ := opens.fuel enough
  cases b <;> exact ⟨.bool _,rfl,rfl⟩

theorem reads_text (depth : Nat) (s : String) : (text s).Reads depth := by
  have opens : Opens (text s).chars := ⟨'"',_,rfl,rfl,by decide,by decide⟩
  refine ⟨opens,fun fuel rest enough stops => ?_⟩
  obtain ⟨fuel,rfl,_⟩ := opens.fuel enough
  obtain ⟨tail,eq,read⟩ := stringFrom_renderText s rest
  refine ⟨.text (some s),?_,rfl⟩
  have skip : skipBlank ('"'::tail) = '"'::tail := rfl
  rw [chars,eq,valueFrom,skip]
  simp only [read]

theorem reads_integer (depth : Nat) {n : Int} (low : -2^63 ≤ n) (high : n < 2^64) :
    (integer n).Reads depth := by
  refine reads_number depth fun rest stops => ⟨_,numberFrom_renderInt n stops,?_⟩
  by_cases negative : n < 0
  · have word : (⟨true,n.natAbs,0,true⟩ : Literal).isWord = true := by
      simp only [Literal.isWord,Bool.true_and,if_true,Bool.and_eq_true,decide_eq_true_eq]
      omega
    have value : -(n.natAbs : Int) = n := by omega
    rw [decide_eq_true negative]
    simp only [Literal.toValue?,word,if_true,value,stored]
  · have word : (⟨false,n.natAbs,0,true⟩ : Literal).isWord = true := by
      simp only [Literal.isWord,Bool.true_and,Bool.false_eq_true,if_false,decide_eq_true_eq]
      omega
    have value : (n.natAbs : Int) = n := by omega
    rw [decide_eq_false negative]
    simp only [Literal.toValue?,word,if_true,Bool.false_eq_true,if_false,value,stored]

/-- A decimal is no integer. -/
theorem toValue?_decimal {negative : Bool} {digits : Nat} {e : Int} {x : Binary64}
    (value : Binary64.ofDecimal negative digits e = x) (finite : x.isFinite = true) :
    (⟨negative,digits,e,false⟩ : Literal).toValue? = some (.double x) := by
  simp [Literal.toValue?,Literal.isWord,Literal.toBinary64,value,finite]

theorem reads_double (depth : Nat) (x : Binary64) : (double x).Reads depth := by
  by_cases finite : x.isFinite = true
  · refine reads_number depth fun rest stops => ?_
    obtain ⟨digits,e,read,same⟩ := numberFrom_renderFloat .double x.isNegative
      (Binary64.isFinite_iff.mp finite) Format.double_narrow stops
    have value : Binary64.ofDecimal x.isNegative digits e = x := by
      rw [Binary64.ofDecimal,same _ Format.double_narrow]
      exact Binary64.ofDecimal_decimal finite
    rw [stored,if_pos finite]
    exact ⟨_,read,toValue?_decimal value finite⟩
  · have above := Nat.le_of_not_lt (mt Binary64.isFinite_iff.mpr finite)
    apply reads_null depth
    · rw [chars,renderFloat,if_pos above]
    · rw [stored,if_neg finite]

theorem reads_single (depth : Nat) (x : Binary32) : (single x).Reads depth := by
  by_cases finite : x.isFinite = true
  · refine reads_number depth fun rest stops => ?_
    obtain ⟨digits,e,read,same⟩ := numberFrom_renderFloat .single x.isNegative
      (Binary32.isFinite_iff.mp finite) Format.single_narrow stops
    have value : Binary64.ofDecimal x.isNegative digits e = x.written := by
      rw [Binary64.ofDecimal,same _ Format.double_narrow]
      rfl
    rw [stored,if_pos finite]
    exact ⟨_,read,toValue?_decimal value (Binary32.written_isFinite finite)⟩
  · have above := Nat.le_of_not_lt (mt Binary32.isFinite_iff.mpr finite)
    apply reads_null depth
    · rw [chars,renderFloat,if_pos above]
    · rw [stored,if_neg finite]

end Value

end

section

variable {depth fuel : Nat} {s r rest : List Char} {t : Tree} {reversed : List Tree} {v : Value}
  {vs : List Value}

theorem stops_of {c : Char} (h : continues c = false) : Stops continues (c::rest) := fun d mem => by
  obtain rfl := Option.mem_some.mp mem
  exact h

theorem itemsFrom_last (h : valueFrom fuel s = (t,some (']'::rest))) :
    itemsFrom (fuel+1) reversed s = (reversed.reverse++[t],some rest) := by
  have skip : skipBlank (']'::rest) = ']'::rest := rfl
  rw [itemsFrom,h]
  simp only [skip,List.reverse_cons]

theorem itemsFrom_next (h : valueFrom fuel s = (t,some (','::r))) :
    itemsFrom (fuel+1) reversed s = itemsFrom fuel (t::reversed) r := by
  have skip : skipBlank (','::r) = ','::r := rfl
  rw [itemsFrom,h]
  simp only [skip]

/-- Items of an array up to its end. -/
theorem itemsFrom_reads (reversed : List Tree) (rest : List Char) (each : ∀ w ∈ v::vs,w.Reads depth)
    (enough : 2*(itemChars (v::vs)).length < fuel) :
    ∃ trees,itemsFrom fuel reversed (itemChars (v::vs)++rest) = (reversed.reverse++trees,some rest) ∧
      valuesOfTrees depth trees = .ok (storedItems (v::vs)) := by
  induction vs generalizing v fuel reversed with
  | nil =>
    have text : itemChars [v] = v.chars++[']'] := rfl
    obtain ⟨fuel,rfl⟩ := Nat.exists_eq_add_of_le' (Nat.zero_lt_of_lt enough)
    rw [text,List.length_append,List.length_singleton] at enough
    rw [text,List.append_assoc]
    obtain ⟨t,read,value⟩ := (each v List.mem_cons_self).reads fuel (']'::rest) (by omega)
      (stops_of rfl)
    refine ⟨[t],itemsFrom_last read,?_⟩
    rw [valuesOfTrees,value]
    rfl
  | cons w vs ih =>
    have text : itemChars (v::w::vs) = v.chars ++ ','::itemChars (w::vs) := rfl
    obtain ⟨fuel,rfl⟩ := Nat.exists_eq_add_of_le' (Nat.zero_lt_of_lt enough)
    rw [text,List.length_append,List.length_cons] at enough
    rw [text,List.append_assoc]
    obtain ⟨t,read,value⟩ := (each v List.mem_cons_self).reads fuel (','::itemChars (w::vs)++rest)
      (by omega) (stops_of rfl)
    obtain ⟨trees,more,values⟩ := ih (t::reversed)
      (fun u mem => each u (List.mem_cons_of_mem v mem)) (show _ < fuel by omega)
    refine ⟨t::trees,(itemsFrom_next read).trans (more.trans (by simp)),?_⟩
    rw [valuesOfTrees,value,storedItems]
    simp only [ok_bind,values]
    rfl

variable {key : String} {members : List (Option String × Tree)} {m : String × Value}
  {ms : List (String × Value)}

theorem opens_itemChars (each : ∀ w ∈ v::vs,w.Reads depth) : Opens (itemChars (v::vs)) := by
  obtain ⟨c,tail,eq,front⟩ := (each v List.mem_cons_self).opens
  cases vs with
  | nil => exact ⟨c,tail++[']'],by rw [itemChars,eq,List.cons_append],front⟩
  | cons w vs =>
    have text : itemChars (v::w::vs) = v.chars ++ ','::itemChars (w::vs) := rfl
    exact ⟨c,_,by rw [text,eq,List.cons_append],front⟩

theorem opens_memberChars : Opens (memberChars (m::ms)) := by
  cases ms with
  | nil => exact ⟨'"',_,rfl,rfl,by decide,by decide⟩
  | cons => exact ⟨'"',_,rfl,rfl,by decide,by decide⟩

theorem membersFrom_last (h : valueFrom fuel s = (t,some ('\x7d'::rest))) :
    membersFrom (fuel+1) members (renderText key ++ ':'::s) =
      (members.reverse++[(some key,t)],some rest) := by
  obtain ⟨tail,eq,read⟩ := stringFrom_renderText key (':'::s)
  have quote : skipBlank ('"'::tail) = '"'::tail := rfl
  have colon : skipBlank (':'::s) = ':'::s := rfl
  have close : skipBlank ('\x7d'::rest) = '\x7d'::rest := rfl
  rw [eq,membersFrom,quote]
  simp only [read,colon,h,close,List.reverse_cons]

theorem membersFrom_next (h : valueFrom fuel s = (t,some (','::r))) :
    membersFrom (fuel+1) members (renderText key ++ ':'::s) =
      membersFrom fuel ((some key,t)::members) r := by
  obtain ⟨tail,eq,read⟩ := stringFrom_renderText key (':'::s)
  have quote : skipBlank ('"'::tail) = '"'::tail := rfl
  have colon : skipBlank (':'::s) = ':'::s := rfl
  have comma : skipBlank (','::r) = ','::r := rfl
  rw [eq,membersFrom,quote]
  simp only [read,colon,h,comma]

/-- Members of an object up to its end. -/
theorem membersFrom_reads (members : List (Option String × Tree)) (rest : List Char)
    (each : ∀ n ∈ m::ms,n.2.Reads depth)
    (enough : 2*(memberChars (m::ms)).length < fuel) :
    ∃ trees,membersFrom fuel members (memberChars (m::ms)++rest) = (members.reverse++trees,some rest) ∧
      membersOfTrees depth trees = .ok (storedMembers (m::ms)) := by
  induction ms generalizing m fuel members with
  | nil =>
    have text : memberChars [m] = renderText m.1 ++ ':'::m.2.chars++['\x7d'] := rfl
    obtain ⟨fuel,rfl⟩ := Nat.exists_eq_add_of_le' (Nat.zero_lt_of_lt enough)
    simp only [text,List.length_append,List.length_cons] at enough
    rw [text,List.append_assoc,List.append_assoc,List.cons_append]
    obtain ⟨t,read,value⟩ := (each m List.mem_cons_self).reads fuel ('\x7d'::rest) (by omega)
      (stops_of rfl)
    refine ⟨[(some m.1,t)],membersFrom_last read,?_⟩
    rw [membersOfTrees]
    simp only [value]
    rfl
  | cons n ms ih =>
    have text : memberChars (m::n::ms) =
        renderText m.1 ++ ':'::m.2.chars ++ ','::memberChars (n::ms) := rfl
    obtain ⟨fuel,rfl⟩ := Nat.exists_eq_add_of_le' (Nat.zero_lt_of_lt enough)
    simp only [text,List.length_append,List.length_cons] at enough
    rw [text,List.append_assoc,List.append_assoc,List.cons_append]
    obtain ⟨t,read,value⟩ := (each m List.mem_cons_self).reads fuel
      (','::memberChars (n::ms)++rest) (by omega) (stops_of rfl)
    obtain ⟨trees,more,values⟩ := ih ((some m.1,t)::members)
      (fun u mem => each u (List.mem_cons_of_mem m mem)) (show _ < fuel by omega)
    refine ⟨(some m.1,t)::trees,(membersFrom_next read).trans (more.trans (by simp)),?_⟩
    rw [membersOfTrees,storedMembers]
    simp only [value,ok_bind,values]
    rfl

/-- Members of different names stay where they are. -/
theorem foldl_putMember (distinct : (ms.map Prod.fst).Nodup) :
    ms.foldl (fun table m => putMember table m.1 m.2) [] = ms := by
  induction ms using List.reverseRecOn with
  | nil => rfl
  | append_singleton ms m ih =>
    rw [List.map_append,List.nodup_append] at distinct
    obtain ⟨before,_,apart⟩ := distinct
    have other : ∀ n ∈ ms,n.1 ≠ m.1 := fun n mem same =>
      apart _ (List.mem_map_of_mem mem) _ List.mem_cons_self same
    rw [List.foldl_append,ih before,List.foldl_cons,List.foldl_nil,putMember,
      List.filter_eq_self.mpr fun n mem => decide_eq_true (other n mem)]

theorem Value.reads_array {items : List Value} (each : ∀ v ∈ items,v.Reads depth) :
    (array items).Reads (depth+1) := by
  have opens : Opens (array items).chars := ⟨'[',_,rfl,rfl,by decide,by decide⟩
  refine ⟨opens,fun fuel rest enough stops => ?_⟩
  have text : (array items).chars = '['::itemChars items := rfl
  obtain ⟨fuel,rfl,enough⟩ := opens.fuel enough
  have skip (s : List Char) : skipBlank ('['::s) = '['::s := rfl
  rw [text] at enough ⊢
  rw [List.cons_append,valueFrom,skip]
  cases items with
  | nil => exact ⟨.array [] true,rfl,rfl⟩
  | cons v vs =>
    rw [List.length_cons] at enough
    obtain ⟨trees,read,values⟩ := itemsFrom_reads [] rest each
      (show _ < fuel by omega)
    have front := (opens_itemChars each).skipBlank rest
    obtain ⟨c,tail,eq,_,other,_⟩ := opens_itemChars each
    refine ⟨.array trees true,?_,?_⟩
    · simp only [front]
      split
      next same =>
        rw [eq] at same
        exact absurd (List.cons.inj same).1 other
      next =>
        simp only [read]
        rfl
    · rw [ofTree]
      simp only [values,ok_bind,if_true]
      rfl

theorem Value.reads_object (distinct : (ms.map Prod.fst).Nodup) (each : ∀ m ∈ ms,m.2.Reads depth) :
    (object ms).Reads (depth+1) := by
  have opens : Opens (object ms).chars := ⟨'\x7b',_,rfl,rfl,by decide,by decide⟩
  refine ⟨opens,fun fuel rest enough stops => ?_⟩
  have text : (object ms).chars = '\x7b'::memberChars ms := rfl
  obtain ⟨fuel,rfl,enough⟩ := opens.fuel enough
  have skip (s : List Char) : skipBlank ('\x7b'::s) = '\x7b'::s := rfl
  rw [text] at enough ⊢
  rw [List.cons_append,valueFrom,skip]
  cases ms with
  | nil => exact ⟨.object [] true,rfl,rfl⟩
  | cons m ms =>
    rw [List.length_cons] at enough
    obtain ⟨trees,read,values⟩ := membersFrom_reads [] rest each
      (show _ < fuel by omega)
    have front := (@opens_memberChars m ms).skipBlank rest
    obtain ⟨c,tail,eq,_,_,other⟩ := @opens_memberChars m ms
    refine ⟨.object trees true,?_,?_⟩
    · simp only [front]
      split
      next same =>
        rw [eq] at same
        exact absurd (List.cons.inj same).1 other
      next =>
        simp only [read]
        rfl
    · have names : (storedMembers (m::ms)).map Prod.fst = (m::ms).map Prod.fst := by
        rw [storedMembers_eq,List.map_map]
        rfl
      rw [ofTree]
      simp only [values,ok_bind,if_true,foldl_putMember (names ▸ distinct)]
      rfl

end

/-- What fits is read. -/
theorem Value.Fits.reads {depth : Nat} {v : Value} (h : v.Fits depth) : v.Reads depth := by
  induction h with
  | null => exact reads_null _ rfl rfl
  | bool b => exact reads_bool _ b
  | integer low high => exact reads_integer _ low high
  | single x => exact reads_single _ x
  | double x => exact reads_double _ x
  | text s => exact reads_text _ s
  | array _ ih => exact reads_array ih
  | object distinct _ ih => exact reads_object distinct ih

/-- A value is read back from its text. -/
theorem Value.parse_render {v : Value} (h : v.Fits 127) : parse v.render = .ok v.stored := by
  have fuel : 2*v.chars.length ≤ 2*v.chars.length+2 := Nat.le_add_right _ _
  obtain ⟨t,read,value⟩ := h.reads.reads _ [] fuel nofun
  rw [List.append_nil] at read
  unfold parse decode Json.parse
  rw [render,String.toList_ofList]
  simp only [read,value,ok_bind]
  rfl

section

theorem allVisible_itemChars {vs : List Value} (each : ∀ v ∈ vs,AllVisible v.chars) :
    AllVisible (itemChars vs) := by
  induction vs with
  | nil => simp [itemChars,Visible]
  | cons v vs ih =>
    obtain ⟨first,more⟩ := List.forall_mem_cons.mp each
    cases vs with
    | nil => simp [itemChars,Visible,first]
    | cons w vs =>
      have text : itemChars (v::w::vs) = v.chars ++ ','::itemChars (w::vs) := rfl
      simpa [text,Visible,first] using ih more

theorem allVisible_memberChars {ms : List (String × Value)} (each : ∀ m ∈ ms,AllVisible m.2.chars) :
    AllVisible (memberChars ms) := by
  induction ms with
  | nil => simp [memberChars,Visible]
  | cons m ms ih =>
    obtain ⟨first,more⟩ := List.forall_mem_cons.mp each
    cases ms with
    | nil => simp [memberChars,Visible,first,allVisible_renderText]
    | cons n ms =>
      have text : memberChars (m::n::ms) =
          renderText m.1 ++ ':'::m.2.chars ++ ','::memberChars (n::ms) := rfl
      simpa [text,Visible,first,allVisible_renderText] using ih more

/-- The text of a value has no control characters, and so is on one line. -/
theorem Value.Fits.allVisible {depth : Nat} {v : Value} (h : v.Fits depth) : AllVisible v.chars := by
  induction h with
  | null => simp [Value.chars,Visible]
  | bool b => cases b <;> simp [Value.chars,Visible]
  | integer => exact allVisible_renderInt _
  | single x => exact allVisible_renderFloat _ _ _ _
  | double x => exact allVisible_renderFloat _ _ _ _
  | text s => exact allVisible_renderText s
  | array _ ih => exact allVisible_cons.mpr ⟨by decide,allVisible_itemChars ih⟩
  | object _ _ ih => exact allVisible_cons.mpr ⟨by decide,allVisible_memberChars ih⟩

end

end GlobeBins.Json
