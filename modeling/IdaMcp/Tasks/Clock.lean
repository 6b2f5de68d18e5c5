import Mathlib
import IdaMcp.Lib.Calendar

/-!
# Time stamps of tasks (`src/server/task.rs`)

`iso_now` writes the seconds since the epoch as a date and a time of day.
-/

namespace Tasks
open Lib

/-- Lines 329-342. -/
def epochDaysToYmd (days : UInt64) : UInt64 × UInt64 × UInt64 :=
  let z:=days+719468
  let era:=z/146097
  let doe:=z-era*146097
  let yoe:=(doe-doe/1460+doe/36524-doe/146096)/365
  let y:=yoe+era*400
  let doy:=doe-(365*yoe+yoe/4-yoe/100)
  let mp:=(5*doy+2)/153
  let d:=doy-(153*mp+2)/5+1
  let m:=if mp < 10 then mp+3 else mp-9
  let year:=if m ≤ 2 then y+1 else y
  (year,m,d)

structure Stamp where
  days : UInt64
  hours : UInt64
  minutes : UInt64
  seconds : UInt64

/-- Lines 318-322. -/
def stampOf (secs : UInt64) : Stamp :=
  let timeSecs:=secs%86400
  ⟨secs/86400,timeSecs/3600,timeSecs%3600/60,timeSecs%60⟩

/-- Models `{n:0width}`. -/
def padded (width : Nat) (n : UInt64) : List Char :=
  let digits:=Nat.toDigits 10 n.toNat
  List.replicate (width-digits.length) '0'++digits

/-- Lines 324-326. -/
def isoNow (secs : UInt64) : String :=
  let s:=stampOf secs
  let (year,month,day):=epochDaysToYmd s.days
  String.ofList (padded 4 year++['-']++padded 2 month++['-']++padded 2 day++['T']++
    padded 2 s.hours++[':']++padded 2 s.minutes++[':']++padded 2 s.seconds++['Z'])

example : isoNow 951782400="2000-02-29T00:00:00Z" := by decide +kernel

def Ymd.date (ymd : UInt64 × UInt64 × UInt64) : Date :=
  ⟨ymd.1.toNat,ymd.2.1.toNat,ymd.2.2.toNat⟩

theorem toNat_add_of_lt {a b : UInt64} (h : a.toNat+b.toNat < 2^64) :
    (a+b).toNat=a.toNat+b.toNat := by
  rw [UInt64.toNat_add,Nat.mod_eq_of_lt h]

theorem toNat_mul_of_lt {a b : UInt64} (h : a.toNat*b.toNat < 2^64) :
    (a*b).toNat=a.toNat*b.toNat := by
  rw [UInt64.toNat_mul,Nat.mod_eq_of_lt h]

theorem toNat_sub_of_le {a b : UInt64} (h : b.toNat ≤ a.toNat) : (a-b).toNat=a.toNat-b.toNat :=
  UInt64.toNat_sub_of_le a b (UInt64.le_iff_toNat_le.mpr h)

theorem toNat_yoe {doe : UInt64} (h : doe.toNat < 146097) :
    ((doe-doe/1460+doe/36524-doe/146096)/365).toNat=
      (doe.toNat-doe.toNat/1460+doe.toNat/36524-doe.toNat/146096)/365 := by
  have h1 : (doe-doe/1460).toNat=doe.toNat-doe.toNat/1460 := by
    rw [toNat_sub_of_le] <;> rw [UInt64.toNat_div]
    · rfl
    · exact Nat.div_le_self _ _
  have h2 : (doe-doe/1460+doe/36524).toNat=doe.toNat-doe.toNat/1460+doe.toNat/36524 := by
    have hd : (doe/36524).toNat=doe.toNat/36524 := UInt64.toNat_div doe 36524
    rw [toNat_add_of_lt] <;> rw [h1,hd]
    omega
  have h3 : (doe-doe/1460+doe/36524-doe/146096).toNat=
      doe.toNat-doe.toNat/1460+doe.toNat/36524-doe.toNat/146096 := by
    have hd : (doe/146096).toNat=doe.toNat/146096 := UInt64.toNat_div doe 146096
    rw [toNat_sub_of_le] <;> rw [h2,hd]
    omega
  rw [UInt64.toNat_div,h3]
  rfl

theorem toNat_doy {doe yoe : UInt64} (hy : yoe.toNat < 400)
    (h : 365*yoe.toNat+yoe.toNat/4-yoe.toNat/100 ≤ doe.toNat) :
    (doe-(365*yoe+yoe/4-yoe/100)).toNat=
      doe.toNat-(365*yoe.toNat+yoe.toNat/4-yoe.toNat/100) := by
  have h4 : (yoe/4).toNat=yoe.toNat/4 := UInt64.toNat_div yoe 4
  have h100 : (yoe/100).toNat=yoe.toNat/100 := UInt64.toNat_div yoe 100
  have h365 : (365*yoe).toNat=365*yoe.toNat := toNat_mul_of_lt (by
    change 365*yoe.toNat < _
    omega)
  have hadd : (365*yoe+yoe/4).toNat=365*yoe.toNat+yoe.toNat/4 := by
    rw [toNat_add_of_lt] <;> rw [h365,h4]
    omega
  have hsub : (365*yoe+yoe/4-yoe/100).toNat=365*yoe.toNat+yoe.toNat/4-yoe.toNat/100 := by
    rw [toNat_sub_of_le] <;> rw [hadd,h100]
    omega
  rw [toNat_sub_of_le] <;> rw [hsub]
  exact h

theorem toNat_mp {doy : UInt64} (h : doy.toNat < 146097) :
    ((5*doy+2)/153).toNat=(5*doy.toNat+2)/153 := by
  have h5 : (5*doy).toNat=5*doy.toNat := toNat_mul_of_lt (by
    change 5*doy.toNat < _
    omega)
  have h2 : (5*doy+2).toNat=5*doy.toNat+2 := by
    rw [toNat_add_of_lt,h5]
    · rfl
    · rw [h5]
      change 5*doy.toNat+2 < _
      omega
  rw [UInt64.toNat_div,h2]
  rfl

theorem toNat_day {doy mp : UInt64} (h : doy.toNat < 146097) (hmp : mp.toNat=(5*doy.toNat+2)/153) :
    (doy-(153*mp+2)/5+1).toNat=doy.toNat-(153*mp.toNat+2)/5+1 := by
  have h153 : (153*mp).toNat=153*mp.toNat := toNat_mul_of_lt (by
    change 153*mp.toNat < _
    omega)
  have h2 : (153*mp+2).toNat=153*mp.toNat+2 := by
    rw [toNat_add_of_lt,h153]
    · rfl
    · rw [h153]
      change 153*mp.toNat+2 < _
      omega
  have hd : ((153*mp+2)/5).toNat=(153*mp.toNat+2)/5 := by
    rw [UInt64.toNat_div,h2]
    rfl
  have hsub : (doy-(153*mp+2)/5).toNat=doy.toNat-(153*mp.toNat+2)/5 := by
    rw [toNat_sub_of_le] <;> rw [hd]
    omega
  rw [toNat_add_of_lt,hsub]
  · rfl
  · rw [hsub]
    change doy.toNat-(153*mp.toNat+2)/5+1 < _
    omega

theorem toNat_month {mp : UInt64} (h : mp.toNat < 146097) :
    (if mp < 10 then mp+3 else mp-9).toNat=if mp.toNat < 10 then mp.toNat+3 else mp.toNat-9 := by
  have hiff : mp < 10 ↔ mp.toNat < 10 := UInt64.lt_iff_toNat_lt
  simp only [hiff]
  split
  · exact toNat_add_of_lt (by change mp.toNat+3 < _; omega)
  · exact toNat_sub_of_le (by change 9 ≤ mp.toNat; omega)

theorem toNat_year {m yoe era : UInt64} (hy : yoe.toNat < 400) (he : era.toNat < 2^50) :
    (if m ≤ 2 then yoe+era*400+1 else yoe+era*400).toNat=
      if m.toNat ≤ 2 then yoe.toNat+era.toNat*400+1 else yoe.toNat+era.toNat*400 := by
  have hiff : m ≤ 2 ↔ m.toNat ≤ 2 := UInt64.le_iff_toNat_le
  have hmul : (era*400).toNat=era.toNat*400 := toNat_mul_of_lt (by
    change era.toNat*400 < _
    omega)
  have hadd : (yoe+era*400).toNat=yoe.toNat+era.toNat*400 := by
    rw [toNat_add_of_lt] <;> rw [hmul]
    omega
  simp only [hiff]
  split
  · rw [toNat_add_of_lt,hadd]
    · rfl
    · rw [hadd]
      change yoe.toNat+era.toNat*400+1 < _
      omega
  · exact hadd

theorem date_epochDaysToYmd {days : UInt64} (h : days.toNat < 2^63) :
    Ymd.date (epochDaysToYmd days)=civil days.toNat := by
  have hz : (days+719468).toNat=days.toNat+719468 := toNat_add_of_lt (by
    change days.toNat+719468 < _
    omega)
  unfold epochDaysToYmd civil Ymd.date
  dsimp only
  generalize days+719468=z at hz
  rw [← hz]
  have hera : (z/146097).toNat=z.toNat/146097 := UInt64.toNat_div z 146097
  have hmul : (z/146097*146097).toNat=z.toNat/146097*146097 := by
    rw [toNat_mul_of_lt] <;> rw [hera]
    · rfl
    · change z.toNat/146097*146097 < _
      omega
  have hdoe : (z-z/146097*146097).toNat=z.toNat-z.toNat/146097*146097 := by
    rw [toNat_sub_of_le] <;> rw [hmul]
    omega
  have hlt : z.toNat-z.toNat/146097*146097 < 146097 := by omega
  have heralt : z.toNat/146097 < 2^50 := by omega
  generalize z-z/146097*146097=doe at hdoe
  generalize z/146097=era at hera
  rw [← hdoe] at hlt ⊢
  rw [← hera] at heralt ⊢
  have hyoe:=toNat_yoe hlt
  obtain ⟨hy400,hstart⟩:=year_start_le hlt
  rw [← hyoe] at hy400 hstart ⊢
  generalize (doe-doe/1460+doe/36524-doe/146096)/365=yoe at hy400 hstart
  have hdoy:=toNat_doy hy400 hstart
  have hdoylt : doe.toNat-(365*yoe.toNat+yoe.toNat/4-yoe.toNat/100) < 146097 := by omega
  generalize doe-(365*yoe+yoe/4-yoe/100)=doy at hdoy
  rw [← hdoy] at hdoylt ⊢
  have hmp:=toNat_mp hdoylt
  generalize (5*doy+2)/153=mp at hmp
  rw [← hmp]
  have hmonth:=@toNat_month mp (by omega)
  rw [toNat_day hdoylt hmp,← hmonth]
  generalize (if mp < 10 then mp+3 else mp-9)=m
  rw [toNat_year hy400 heralt]

/-- The seconds of an instant are the days and the time of day again; the date
of the days is the date that many days after the first of January 1970 in the
proleptic Gregorian calendar, and the day after has the date after. -/
theorem isoNow_calendar (secs : UInt64) :
    let s : Stamp:=stampOf secs
    let date:=Ymd.date (epochDaysToYmd s.days)
    s.days.toNat*86400+s.hours.toNat*3600+s.minutes.toNat*60+s.seconds.toNat=secs.toNat ∧
      s.hours.toNat < 24 ∧ s.minutes.toNat < 60 ∧ s.seconds.toNat < 60 ∧
      date=Date.next^[s.days.toNat] epoch ∧ date.Valid ∧ date.daysFromCivil=s.days.toNat ∧
      Ymd.date (epochDaysToYmd (s.days+1))=date.next := by
  intro s date
  have hsecs:=secs.toNat_lt
  have hdays : s.days.toNat=secs.toNat/86400 := UInt64.toNat_div secs 86400
  have htime : (secs%86400).toNat=secs.toNat%86400 := UInt64.toNat_mod secs 86400
  have hhours : s.hours.toNat=secs.toNat%86400/3600 := by
    rw [← htime]
    exact UInt64.toNat_div _ 3600
  have hminutes : s.minutes.toNat=secs.toNat%86400%3600/60 := by
    rw [← htime]
    exact (UInt64.toNat_div _ 60).trans (congrArg (·/60) (UInt64.toNat_mod _ 3600))
  have hseconds : s.seconds.toNat=secs.toNat%86400%60 := by
    rw [← htime]
    exact UInt64.toNat_mod _ 60
  have hdate : date=civil s.days.toNat := date_epochDaysToYmd (by omega)
  have hnext : (s.days+1).toNat=s.days.toNat+1 := toNat_add_of_lt (by
    change s.days.toNat+1 < _
    omega)
  refine ⟨by omega,by omega,by omega,by omega,?_,?_,?_,?_⟩
  · rw [hdate,civil_eq_iterate]
  · rw [hdate]
    exact civil_valid _
  · rw [hdate,daysFromCivil_civil]
  · rw [date_epochDaysToYmd (by omega),hnext,civil_succ,hdate]

end Tasks
