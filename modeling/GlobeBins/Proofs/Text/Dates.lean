import GlobeBins.Calendar
import GlobeBins.Proofs.Text.Digits

namespace GlobeBins

namespace Text

theorem isDigit_not_blank {c : Char} (h : c.isDigit = true) : isBlank c = false := by
  have range := toNat_of_isDigit h
  simp only [isBlank,Bool.or_eq_false_iff,Bool.and_eq_false_iff,decide_eq_false_iff_not,
    beq_eq_false_iff_ne]
  omega

/-- Nothing is taken from a text that neither begins nor ends with a blank. -/
theorem trimChars_eq {s : List Char} (first : ∀ c ∈ s.head?,isBlank c = false)
    (last : ∀ c ∈ s.getLast?,isBlank c = false) : trimChars s = s := by
  have kept : ∀ t : List Char,(∀ c ∈ t.head?,isBlank c = false) → t.dropWhile isBlank = t := by
    intro t plain
    cases t with
    | nil => rfl
    | cons c t => exact List.dropWhile_cons_of_neg (by simp [plain c rfl])
  rw [trimChars,kept s first,kept s.reverse (by rwa [List.head?_reverse]),List.reverse_reverse]

end Text

namespace Date

open Text

/-- Three numbers between hyphens. -/
def Spelled (s : List Char) (d : Date) : Prop := ∃ year month day,
  s = year++ '-'::(month++ '-'::day) ∧ (∃ n : Nat,Cardinal year n ∧ (n : Int) = d.year) ∧
    Cardinal month d.month ∧ Cardinal day d.day

/-- Four digits of the year, two of the month and two of the day, between hyphens. -/
def Written (s : List Char) (d : Date) : Prop := ∃ year month day,
  s = year++ '-'::(month++ '-'::day) ∧ year.length = 4 ∧ month.length = 2 ∧ day.length = 2 ∧
    (∃ n : Nat,Digits year n ∧ (n : Int) = d.year) ∧ Digits month d.month ∧ Digits day d.day

/-- Digits of a number behind as many zeros as the width asks for. -/
def padded (width n : Nat) : List Char :=
  let ds := Nat.toDigits 10 n
  List.replicate (width-ds.length) '0'++ds

/-- The written form. -/
def written (d : Date) : String :=
  String.ofList (padded 4 d.year.toNat++ '-'::(padded 2 d.month++ '-'::padded 2 d.day))

theorem padded_digits (width n : Nat) : Digits (padded width n) n := (digits_toDigits n).zeros _

theorem padded_length {width n : Nat} (pos : 0 < width) (low : n < 10^width) :
    (padded width n).length = width := by
  have fits := (Nat.length_toDigits_le_iff (by decide) pos).mpr low
  rw [padded,List.length_append,List.length_replicate]
  omega

theorem month_le (d : Date) : d.month ≤ 12 := by
  have days := d.day_range
  exact ((monthLength_pos_iff d.year d.month).mp (by omega)).2

theorem day_le (d : Date) : d.day ≤ 31 := d.day_range.2.trans (monthLength_le _ _)

theorem of?_eq_some {year : Int} {month day : Nat} {d : Date} :
    of? year month day = some d ↔ year = d.year ∧ month = d.month ∧ day = d.day := by
  rw [of?,Option.dite_none_right_eq_some]
  constructor
  · rintro ⟨_,eq⟩
    cases Option.some.inj eq
    exact ⟨rfl,rfl,rfl⟩
  · rintro ⟨rfl,rfl,rfl⟩
    exact ⟨⟨d.year_range,d.day_range⟩,rfl⟩

theorem cutHyphen?_eq_some {s a b : List Char} :
    cutHyphen? s = some (a,b) ↔ s = a++ '-'::b ∧ '-' ∉ a := by
  induction s generalizing a with
  | nil => simp [cutHyphen?]
  | cons c s ih =>
    by_cases hyphen : c = '-'
    · subst hyphen
      cases a with
      | nil => simp [cutHyphen?]
      | cons d a =>
        simp only [cutHyphen?,List.cons_append,List.cons.injEq,List.mem_cons]
        simp
        tauto
    · have step : cutHyphen? (c::s) = (cutHyphen? s).map fun p => (c::p.1,p.2) := by
        simp only [cutHyphen?,List.dropWhile_cons,List.takeWhile_cons,hyphen,decide_true,if_true,ne_eq,
          not_false_eq_true]
        cases s.dropWhile fun x => decide (x ≠ '-') <;> simp_all
      rw [step,Option.map_eq_some_iff]
      cases a with
      | nil => simp [hyphen]
      | cons d a =>
        constructor
        · rintro ⟨⟨a',b'⟩,cut,eq⟩
          cases eq
          obtain ⟨rfl,none⟩ := ih.mp cut
          exact ⟨rfl,by simp [none,Ne.symm hyphen]⟩
        · rintro ⟨eq,none⟩
          cases eq
          exact ⟨(a,b),ih.mpr ⟨rfl,fun mem => none (List.mem_cons_of_mem _ mem)⟩,rfl⟩

theorem hyphen_not_mem {s : List Char} {n : Nat} (h : Cardinal s n) : '-' ∉ s := by
  intro mem
  rcases h with digits | ⟨r,rfl,digits⟩
  · cases digits.digits _ mem
  · rcases List.mem_cons.mp mem with eq | mem
    · cases eq
    · cases digits.digits _ mem

/-- What is read as a date. -/
theorem parse?_eq_some {s : String} {d : Date} :
    parse? s = some d ↔ Spelled (trimChars s.toList) d := by
  have years := d.year_range
  have months := d.month_le
  have days := d.day_le
  simp only [parse?,bind,Option.bind_eq_some_iff,Prod.exists,cutHyphen?_eq_some,natural?_eq_some,
    of?_eq_some]
  constructor
  · rintro ⟨year,rest,⟨eq,unsigned⟩,month,day,⟨rfl,_⟩,y,hy,m,⟨hm,_⟩,t,⟨ht,_⟩,rfl,rfl,rfl⟩
    exact ⟨year,month,day,eq,((integer?_eq_some unsigned).mp hy).1,hm,ht⟩
  · rintro ⟨year,month,day,eq,⟨n,hy,value⟩,hm,ht⟩
    have unsigned := hyphen_not_mem hy
    exact ⟨year,_,⟨eq,unsigned⟩,month,day,⟨rfl,hyphen_not_mem hm⟩,d.year,
      (integer?_eq_some unsigned).mpr ⟨⟨n,hy,value⟩,by omega,by omega⟩,d.month,⟨hm,by omega⟩,d.day,
      ⟨ht,by omega⟩,rfl,rfl,rfl⟩

theorem Written.spelled {s : List Char} {d : Date} (h : Written s d) : Spelled s d := by
  obtain ⟨year,month,day,eq,_,_,_,⟨n,hy,value⟩,hm,ht⟩ := h
  exact ⟨year,month,day,eq,⟨n,.inl hy,value⟩,.inl hm,.inl ht⟩

/-- The dates of the years that have four digits have a written form, which has no blanks. -/
theorem written_written {d : Date} (era : 0 ≤ d.year) :
    trimChars d.written.toList = d.written.toList ∧ Written d.written.toList d := by
  have years := d.year_range
  have months := d.month_le
  have days := d.day_le
  have hy := padded_digits 4 d.year.toNat
  have hd := padded_digits 2 d.day
  have form : d.written.toList =
      padded 4 d.year.toNat++ '-'::(padded 2 d.month++ '-'::padded 2 d.day) := String.toList_ofList
  constructor
  · rw [form]
    apply trimChars_eq
    · intro c mem
      rw [List.head?_append_of_ne_nil _ hy.nonempty] at mem
      exact isDigit_not_blank (hy.digits c (List.mem_of_mem_head? mem))
    · intro c mem
      have front : padded 4 d.year.toNat++ '-'::(padded 2 d.month++ '-'::padded 2 d.day) =
          (padded 4 d.year.toNat++ '-'::(padded 2 d.month++['-']))++padded 2 d.day := by simp
      rw [front,List.getLast?_append_of_ne_nil _ hd.nonempty] at mem
      exact isDigit_not_blank (hd.digits c (List.mem_of_mem_getLast? mem))
  · exact ⟨_,_,_,form,padded_length (by decide) (by omega),padded_length (by decide) (by omega),
      padded_length (by decide) (by omega),⟨_,hy,Int.toNat_of_nonneg era⟩,padded_digits 2 d.month,hd⟩

/-- Written forms are in the order of their dates. -/
theorem Written.lt_iff {s t : List Char} {a b : Date} (hs : Written s a) (ht : Written t b) :
    s < t ↔ b.isAfter a = true := by
  obtain ⟨year,month,day,rfl,ly,lm,ld,⟨y,hy,valueY⟩,hm,hd⟩ := hs
  obtain ⟨year',month',day',rfl,ly',lm',ld',⟨y',hy',valueY'⟩,hm',hd'⟩ := ht
  have less {p q : List Char} {n m : Nat} (hp : Digits p n) (hq : Digits q m)
      (length : p.length = q.length) : p < q ↔ n < m := by
    rw [digits_lt_iff hp.digits hq.digits length,hp.value,hq.value]
  have same {p q : List Char} {n m : Nat} (hp : Digits p n) (hq : Digits q m)
      (length : p.length = q.length) : p = q ↔ n = m := by
    constructor
    · rintro rfl
      exact hp.value.symm.trans hq.value
    · rintro rfl
      have up := mt (less hp hq length).mp (Nat.lt_irrefl n)
      have down := mt (less hq hp length.symm).mp (Nat.lt_irrefl n)
      exact le_antisymm (not_lt.mp down) (not_lt.mp up)
  rw [append_lt_append_iff (ly.trans ly'.symm),less hy hy' (ly.trans ly'.symm),
    same hy hy' (ly.trans ly'.symm),List.cons_lt_cons_iff,append_lt_append_iff (lm.trans lm'.symm),
    less hm hm' (lm.trans lm'.symm),same hm hm' (lm.trans lm'.symm),List.cons_lt_cons_iff,
    less hd hd' (ld.trans ld'.symm)]
  simp only [isAfter,Bool.or_eq_true,Bool.and_eq_true,decide_eq_true_eq,beq_iff_eq,lt_irrefl,true_and,
    false_or,← valueY,← valueY',Nat.cast_lt,Nat.cast_inj]
  omega

theorem Written.length {s : List Char} {d : Date} (h : Written s d) : s.length = 10 := by
  obtain ⟨year,month,day,rfl,years,months,days,_⟩ := h
  simp only [List.length_append,List.length_cons,years,months,days]

/-- A text is read as a date exactly if it spells the date between blanks. So it is read if it has the
written form, and only that form is read where nothing else is spelled; each date of the years 0 to 9999
is read back from the form that is written for it; and texts in that form are in the order of their
dates. -/
theorem parse?_reads (s t : String) (a b : Date) :
    (parse? s = some a ↔ Spelled (trimChars s.toList) a) ∧
    (Written (trimChars s.toList) a → parse? s = some a) ∧
    ((∀ d,parse? s = some d ↔ Written (trimChars s.toList) d) ↔
      ∀ d,Spelled (trimChars s.toList) d → Written (trimChars s.toList) d) ∧
    (0 ≤ a.year → Written a.written.toList a ∧ parse? a.written = some a) ∧
    (Written (trimChars s.toList) a → Written (trimChars t.toList) b →
      (trim s < trim t ↔ b.isAfter a = true)) := by
  have reads (s : String) (d : Date) (form : Written (trimChars s.toList) d) : parse? s = some d :=
    parse?_eq_some.mpr form.spelled
  refine ⟨parse?_eq_some,reads s a,⟨?_,?_⟩,?_,?_⟩
  · exact fun only d spelled => (only d).mp (parse?_eq_some.mpr spelled)
  · exact fun only d => ⟨fun read => only d (parse?_eq_some.mp read),reads s d⟩
  · intro era
    obtain ⟨plain,form⟩ := written_written era
    exact ⟨form,reads _ _ (plain.symm ▸ form)⟩
  · intro formS formT
    rw [String.lt_iff_toList_lt,trim,trim,String.toList_ofList,String.toList_ofList]
    exact formS.lt_iff formT

/-- The last days of two Februaries, one of them between blanks, and the first day of the calendar. -/
theorem parse?_reads_february : ∃ a b c : Date,Written (trimChars "2020-02-29".toList) a ∧
    Written (trimChars " 2021-02-28 ".toList) b ∧ parse? "2020-02-29" = some a ∧
    parse? " 2021-02-28 " = some b ∧ b.isAfter a = true ∧ c.written = "0000-01-01" ∧
    parse? "0000-01-01" = some c := by
  have form (year month day : List Char) {y m t : Nat} {d : Date} (hy : digits? year = some y)
      (hm : digits? month = some m) (ht : digits? day = some t)
      (lengths : year.length = 4 ∧ month.length = 2 ∧ day.length = 2)
      (parts : (y : Int) = d.year ∧ m = d.month ∧ t = d.day) :
      Written (year++ '-'::(month++ '-'::day)) d := by
    obtain ⟨years,rfl,rfl⟩ := parts
    exact ⟨_,_,_,rfl,lengths.1,lengths.2.1,lengths.2.2,⟨y,digits?_eq_some.mp hy,years⟩,
      digits?_eq_some.mp hm,digits?_eq_some.mp ht⟩
  let a : Date := ⟨2020,2,29,by decide,by decide⟩
  let b : Date := ⟨2021,2,28,by decide,by decide⟩
  let c : Date := ⟨0,1,1,by decide,by decide⟩
  have first : Written (trimChars "2020-02-29".toList) a :=
    form "2020".toList "02".toList "29".toList rfl rfl rfl ⟨rfl,rfl,rfl⟩ ⟨rfl,rfl,rfl⟩
  have second : Written (trimChars " 2021-02-28 ".toList) b :=
    form "2021".toList "02".toList "28".toList rfl rfl rfl ⟨rfl,rfl,rfl⟩ ⟨rfl,rfl,rfl⟩
  obtain ⟨_,read,_,_,order⟩ := parse?_reads "2020-02-29" " 2021-02-28 " a b
  obtain ⟨_,read',_⟩ := parse?_reads " 2021-02-28 " "" b c
  obtain ⟨_,_,_,back,_⟩ := parse?_reads "" "" c c
  have before : trim "2020-02-29" < trim " 2021-02-28 " := by decide +kernel
  have own : c.written = "0000-01-01" := by decide +kernel
  exact ⟨a,b,c,first,second,read first,read' second,(order first second).mp before,own,
    own ▸ (back (by decide)).2⟩

/-- A month and a day of one digit are read, although the text has not the written form. -/
theorem short_read : ∃ d : Date,parse? "2020-1-1" = some d ∧
    ¬∀ (s : String) (d : Date),parse? s = some d ↔ Written (trimChars s.toList) d := by
  have read : parse? "2020-1-1" = some ⟨2020,1,1,by decide,by decide⟩ := by decide +kernel
  refine ⟨_,read,fun only => ?_⟩
  have length := ((only _ _).mp read).length
  revert length
  decide +kernel

end Date

end GlobeBins
