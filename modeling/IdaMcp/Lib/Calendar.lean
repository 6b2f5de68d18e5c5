import Mathlib.Logic.Function.Iterate

/-!
# The proleptic Gregorian calendar

Dates are counted from the first of March: the leap day is then the last of
its year, a month begins `(153*m+2)/5` days after the year, and 400 years are
an era of 146097 days. `civil` finds the date of a day by divisions alone;
`Date.next` is the calendar itself, one day after the other.
-/

namespace Lib

def isLeap (y : Nat) : Bool := y%4=0 && (y%100≠0 || y%400=0)

def daysIn (y m : Nat) : Nat :=
  if m=2 then if isLeap y then 29 else 28
  else if m=4 ∨ m=6 ∨ m=9 ∨ m=11 then 30 else 31

@[ext] structure Date where
  year : Nat
  month : Nat
  day : Nat
  deriving DecidableEq

namespace Date

structure Valid (d : Date) : Prop where
  month : 1 ≤ d.month ∧ d.month ≤ 12
  day : 1 ≤ d.day ∧ d.day ≤ daysIn d.year d.month

/-- The day after. -/
def next (d : Date) : Date :=
  if d.day < daysIn d.year d.month then { d with day := d.day+1 }
  else if d.month < 12 then ⟨d.year,d.month+1,1⟩ else ⟨d.year+1,1,1⟩

/-- The years before the first of March, and the months behind it. -/
def marchYear (d : Date) : Nat := if d.month ≤ 2 then d.year-1 else d.year
def marchMonth (d : Date) : Nat := if d.month ≤ 2 then d.month+9 else d.month-3

/-- The days between a date and the first of March of the year 0. -/
def dayNumber (d : Date) : Nat :=
  let y:=d.marchYear
  let era:=y/400
  let yoe:=y-era*400
  let doy:=(153*d.marchMonth+2)/5+d.day-1
  era*146097+(yoe*365+yoe/4-yoe/100+doy)

/-- The days between a date and the first of January 1970. -/
def daysFromCivil (d : Date) : Int := d.dayNumber-719468

end Date

def epoch : Date := ⟨1970,1,1⟩

/-- The date of a day. -/
def civil (days : Nat) : Date :=
  let z:=days+719468
  let era:=z/146097
  let doe:=z-era*146097
  let yoe:=(doe-doe/1460+doe/36524-doe/146096)/365
  let y:=yoe+era*400
  let doy:=doe-(365*yoe+yoe/4-yoe/100)
  let mp:=(5*doy+2)/153
  let d:=doy-(153*mp+2)/5+1
  let m:=if mp < 10 then mp+3 else mp-9
  ⟨if m ≤ 2 then y+1 else y,m,d⟩

theorem isLeap_eq_true {y : Nat} : isLeap y=true ↔ y%4=0 ∧ (y%100≠0 ∨ y%400=0) := by
  simp [isLeap]

theorem isLeap_sub_era (y : Nat) : isLeap (y-y/400*400+1)=isLeap (y+1) := by
  have h4 : (y-y/400*400+1)%4=(y+1)%4 := by omega
  have h100 : (y-y/400*400+1)%100=(y+1)%100 := by omega
  have h400 : (y-y/400*400+1)%400=(y+1)%400 := by omega
  rw [isLeap,h4,h100,h400]
  rfl

theorem era_days (y : Nat) :
    y/400*146097+((y-y/400*400)*365+(y-y/400*400)/4-(y-y/400*400)/100)=
      365*y+y/4-y/100+y/400 := by
  omega

theorem era_divisions {c q r doy : Nat} (hc : c < 4) (hq : q < 25) (hr : r < 4)
    (hl : doy ≤ 364 ∨ (doy=365 ∧ r=3 ∧ (q < 24 ∨ c=3))) :
    let doe:=36524*c+1461*q+365*r+doy
    (doe-doe/1460+doe/36524-doe/146096)/365=100*c+4*q+r := by
  intro doe
  have h1460 : doe/1460=25*c+q+(24*c+q+365*r+doy)/1460 := by omega
  have hcentury : doe/36524=c ∧ doe/146096=0 ∨ doe/36524=c+1 ∧ doe/146096=1 := by omega
  omega

theorem era_cut {doe : Nat} (h : doe < 146097) : ∃ c q r doy,c < 4 ∧ q < 25 ∧ r < 4 ∧
    (doy ≤ 364 ∨ (doy=365 ∧ r=3 ∧ (q < 24 ∨ c=3))) ∧ doe=36524*c+1461*q+365*r+doy := by
  obtain ⟨c,m,hc,hm,rfl⟩ : ∃ c m,c < 4 ∧ (m < 36524 ∨ (c=3 ∧ m=36524)) ∧ doe=36524*c+m := by
    rcases Nat.lt_or_ge doe 146096 with hlt | hge
    · exact ⟨doe/36524,doe%36524,by omega,by omega,by omega⟩
    · exact ⟨3,36524,by omega,by omega,by omega⟩
  rcases Nat.lt_or_ge (m%1461) 1460 with hlt | hge
  · exact ⟨c,m/1461,m%1461/365,m%1461%365,hc,by omega,by omega,by omega,by omega⟩
  · exact ⟨c,m/1461,3,365,hc,by omega,by omega,by omega,by omega⟩

theorem year_start_le {doe : Nat} (h : doe < 146097) :
    let yoe:=(doe-doe/1460+doe/36524-doe/146096)/365
    yoe < 400 ∧ 365*yoe+yoe/4-yoe/100 ≤ doe := by
  intro yoe
  obtain ⟨c,q,r,doy,hc,hq,hr,hl,rfl⟩:=era_cut h
  have hyoe : yoe=100*c+4*q+r := era_divisions hc hq hr hl
  rw [hyoe]
  have h4 : (100*c+4*q+r)/4=25*c+q := by omega
  have h100 : (100*c+4*q+r)/100=c := by omega
  omega

theorem year_of_era {yoe doy : Nat} (hy : yoe < 400)
    (hl : doy ≤ 364 ∨ (doy=365 ∧ isLeap (yoe+1)=true)) :
    let doe:=yoe*365+yoe/4-yoe/100+doy
    doe < 146097 ∧ (doe-doe/1460+doe/36524-doe/146096)/365=yoe := by
  intro doe
  rw [isLeap_eq_true] at hl
  have hdiv:=@era_divisions (yoe/100) (yoe%100/4) (yoe%4) doy
    (by omega) (by omega) (by omega) (by omega)
  have hdoe : doe=36524*(yoe/100)+1461*(yoe%100/4)+365*(yoe%4)+doy := by omega
  have hyoe : yoe=100*(yoe/100)+4*(yoe%100/4)+yoe%4 := by omega
  refine ⟨by omega,?_⟩
  rw [hdoe]
  exact hdiv.trans hyoe.symm

namespace Date
variable {d : Date}

/-- The day of the year that begins in March. -/
def marchDay (d : Date) : Nat := (153*d.marchMonth+2)/5+d.day-1

theorem dayNumber_eq (d : Date) : d.dayNumber=
    365*d.marchYear+d.marchYear/4-d.marchYear/100+d.marchYear/400+d.marchDay := by
  have h:=era_days d.marchYear
  unfold dayNumber marchDay
  dsimp only
  omega

theorem marchMonth_le (h : d.Valid) : d.marchMonth ≤ 11 := by
  have hm:=h.month
  unfold marchMonth
  split <;> omega

theorem daysIn_add {d : Date} (h : d.Valid) (h2 : d.month≠2) :
    (153*d.marchMonth+2)/5+daysIn d.year d.month=(153*(d.marchMonth+1)+2)/5 := by
  have htable : ∀ m ≤ 12,1 ≤ m → m≠2 →
      (153*(if m ≤ 2 then m+9 else m-3)+2)/5+(if m=4 ∨ m=6 ∨ m=9 ∨ m=11 then 30 else 31)=
        (153*((if m ≤ 2 then m+9 else m-3)+1)+2)/5 := by decide
  rw [daysIn,if_neg h2]
  exact htable d.month h.month.2 h.month.1 h2

theorem daysIn_february (y : Nat) : daysIn y 2=if isLeap y then 29 else 28 := rfl

theorem day_le_of_february (h : d.Valid) (h2 : d.month=2) :
    d.day ≤ if isLeap d.year then 29 else 28 := by
  have hd:=h.day.2
  rwa [h2,daysIn_february] at hd

theorem month_of_marchDay (h : d.Valid) :
    (5*d.marchDay+2)/153=d.marchMonth ∧ d.marchDay-(153*d.marchMonth+2)/5+1=d.day := by
  have hd:=h.day
  unfold marchDay
  by_cases h2 : d.month=2
  · have hf:=day_le_of_february h h2
    have hm : d.marchMonth=11 := by rw [marchMonth,h2]; rfl
    rw [hm]
    split at hf <;> omega
  · have hm:=daysIn_add h h2
    omega

theorem marchDay_le (h : d.Valid) (hy : 1 ≤ d.year) :
    d.marchDay ≤ 364 ∨ (d.marchDay=365 ∧ isLeap (d.marchYear+1)=true) := by
  have hd:=h.day
  have hmle:=marchMonth_le h
  unfold marchDay
  by_cases h2 : d.month=2
  · have hf:=day_le_of_february h h2
    have hm : d.marchMonth=11 := by rw [marchMonth,h2]; rfl
    have hmy : d.marchYear+1=d.year := by
      rw [marchYear,h2,if_pos (by decide)]
      omega
    rw [hm,hmy]
    split at hf
    · next hleap =>
      rcases Nat.lt_or_ge d.day 29 with hlt | hge
      · exact .inl (by omega)
      · exact .inr ⟨by omega,hleap⟩
    · exact .inl (by omega)
  · have hm:=daysIn_add h h2
    have h11 : d.marchMonth≠11 := by
      intro he
      unfold marchMonth at he
      have hmo:=h.month
      split at he <;> omega
    exact .inl (by omega)

theorem month_of_marchMonth (h : d.Valid) :
    (if d.marchMonth < 10 then d.marchMonth+3 else d.marchMonth-9)=d.month := by
  have hm:=h.month
  unfold marchMonth
  split <;> split <;> omega

theorem year_of_marchYear (hy : 1 ≤ d.year) :
    (if d.month ≤ 2 then d.marchYear+1 else d.marchYear)=d.year := by
  unfold marchYear
  split <;> omega

theorem civil_dayNumber (h : d.Valid) (hy : 1 ≤ d.year) {n : Nat} (hn : n+719468=d.dayNumber) :
    civil n=d := by
  have hlt : d.marchYear-d.marchYear/400*400 < 400 := by omega
  have hleap : d.marchDay ≤ 364 ∨ (d.marchDay=365 ∧
      isLeap (d.marchYear-d.marchYear/400*400+1)=true) := by
    refine (marchDay_le h hy).imp_right fun hl => ⟨hl.1,?_⟩
    rw [isLeap_sub_era]
    exact hl.2
  obtain ⟨hera,hyoe⟩:=year_of_era hlt hleap
  obtain ⟨hmonth,hday⟩:=month_of_marchDay h
  have hyear : d.marchYear-d.marchYear/400*400+d.marchYear/400*400=d.marchYear := by omega
  have hz : d.dayNumber=d.marchYear/400*146097+
      ((d.marchYear-d.marchYear/400*400)*365+(d.marchYear-d.marchYear/400*400)/4-
        (d.marchYear-d.marchYear/400*400)/100+d.marchDay) := rfl
  generalize d.marchYear/400=era at hlt hera hyoe hyear hz
  generalize d.marchYear-era*400=yoe at hlt hera hyoe hyear hz
  have hdiv : d.dayNumber/146097=era := by
    rw [hz,Nat.mul_comm,Nat.mul_add_div (by decide),Nat.div_eq_of_lt hera,Nat.add_zero]
  have hdoe : d.dayNumber-era*146097=yoe*365+yoe/4-yoe/100+d.marchDay := by
    rw [hz,Nat.add_sub_cancel_left]
  have hdoy : yoe*365+yoe/4-yoe/100+d.marchDay-(365*yoe+yoe/4-yoe/100)=d.marchDay := by
    rw [Nat.mul_comm 365,Nat.add_sub_cancel_left]
  rw [civil,hn,hdiv,hdoe,hyoe,hdoy,hmonth,hday,hyear,month_of_marchMonth h,year_of_marchYear hy]

theorem next_cases (h : d.Valid) :
    (d.day < daysIn d.year d.month ∧ d.next=⟨d.year,d.month,d.day+1⟩) ∨
    (d.day=daysIn d.year d.month ∧ d.month < 12 ∧ d.next=⟨d.year,d.month+1,1⟩) ∨
    (d.day=daysIn d.year d.month ∧ d.month=12 ∧ d.next=⟨d.year+1,1,1⟩) := by
  have hm:=h.month
  have hd:=h.day
  unfold next
  by_cases hlt : d.day < daysIn d.year d.month
  · exact .inl ⟨hlt,if_pos hlt⟩
  rw [if_neg hlt]
  by_cases h12 : d.month < 12
  · exact .inr (.inl ⟨by omega,h12,if_pos h12⟩)
  · exact .inr (.inr ⟨by omega,by omega,if_neg h12⟩)

theorem one_le_daysIn (y m : Nat) : 1 ≤ daysIn y m := by
  unfold daysIn
  split
  · split <;> decide
  · split <;> decide

theorem next_valid (h : d.Valid) : d.next.Valid := by
  have hm:=h.month
  obtain ⟨hlt,hn⟩ | ⟨-,h12,hn⟩ | ⟨-,-,hn⟩:=next_cases h <;> rw [hn]
  · exact ⟨hm,Nat.le_add_left 1 d.day,hlt⟩
  · exact ⟨⟨Nat.le_add_left 1 d.month,h12⟩,Nat.le_refl 1,one_le_daysIn _ _⟩
  · exact ⟨⟨Nat.le_refl 1,(by decide : 1 ≤ 12)⟩,Nat.le_refl 1,one_le_daysIn _ _⟩

theorem year_le_next (h : d.Valid) : d.year ≤ d.next.year := by
  obtain ⟨-,hn⟩ | ⟨-,-,hn⟩ | ⟨-,-,hn⟩:=next_cases h
  all_goals
    have hy:=congrArg Date.year hn
    dsimp only at hy
    omega

theorem marchYear_days (y : Nat) :
    365*(y+1)+(y+1)/4-(y+1)/100+(y+1)/400=
      365*y+y/4-y/100+y/400+(if isLeap (y+1) then 366 else 365) := by
  have hle : y/100 ≤ y/4 := by omega
  have h4 : ((y+1)%4=0 ∧ (y+1)/4=y/4+1) ∨ ((y+1)%4≠0 ∧ (y+1)/4=y/4) := by omega
  have h100 : ((y+1)%100=0 ∧ (y+1)/100=y/100+1) ∨ ((y+1)%100≠0 ∧ (y+1)/100=y/100) := by omega
  have h400 : ((y+1)%400=0 ∧ (y+1)/400=y/400+1) ∨ ((y+1)%400≠0 ∧ (y+1)/400=y/400) := by omega
  have hdvd : ((y+1)%400=0 → (y+1)%100=0) ∧ ((y+1)%100=0 → (y+1)%4=0) := by omega
  -- nothing but the three remainders counts from here on
  have hleap:=@isLeap_eq_true (y+1)
  generalize (y+1)%4=r,(y+1)%100=s,(y+1)%400=t at h4 h100 h400 hdvd hleap
  generalize y/4=a,y/100=b,y/400=c at hle h4 h100 h400 ⊢
  generalize (y+1)/4=a',(y+1)/100=b',(y+1)/400=c' at h4 h100 h400 ⊢
  split
  · next h =>
    have hl:=hleap.mp h
    omega
  · next h =>
    rw [hleap] at h
    omega

theorem dayNumber_next (h : d.Valid) (hy : 1 ≤ d.year) : d.next.dayNumber=d.dayNumber+1 := by
  have hm:=h.month
  have hd:=h.day
  rw [dayNumber_eq,dayNumber_eq]
  unfold marchDay
  obtain ⟨hlt,hn⟩ | ⟨hend,h12,hn⟩ | ⟨hend,h12,hn⟩:=next_cases h
  · -- within a month
    have hyn : d.next.marchYear=d.marchYear := by rw [hn]; rfl
    have hmn : d.next.marchMonth=d.marchMonth := by rw [hn]; rfl
    have hdn : d.next.day=d.day+1 := by rw [hn]
    rw [hyn,hmn,hdn]
    omega
  · have hdn : d.next.day=1 := by rw [hn]
    by_cases h2 : d.month=2
    · -- the year that began in March is over
      have hmy : d.marchYear+1=d.year := by
        rw [marchYear,h2,if_pos (by decide)]
        omega
      have hyn : d.next.marchYear=d.marchYear+1 := by
        rw [hn,marchYear,h2,hmy]
        rfl
      have hmn : d.next.marchMonth=0 := by rw [hn,marchMonth,h2]; rfl
      have hmm : d.marchMonth=11 := by rw [marchMonth,h2]; rfl
      have hdays:=marchYear_days d.marchYear
      rw [h2,daysIn_february,← hmy] at hend
      rw [hyn,hmn,hdn,hmm,hdays,hend]
      split <;> omega
    · have hadd:=daysIn_add h h2
      have hyn : d.next.marchYear=d.marchYear := by
        rw [hn]
        unfold marchYear
        dsimp only
        split <;> split <;> omega
      have hmn : d.next.marchMonth=d.marchMonth+1 := by
        rw [hn]
        unfold marchMonth
        dsimp only
        split <;> split <;> omega
      rw [hyn,hmn,hdn]
      omega
  · -- the first of January is in the same year as the day before
    have hadd:=daysIn_add h (by omega)
    have hyn : d.next.marchYear=d.marchYear := by
      rw [hn,marchYear,marchYear,h12]
      rfl
    have hmn : d.next.marchMonth=d.marchMonth+1 := by
      rw [hn,marchMonth,marchMonth,h12]
      rfl
    have hdn : d.next.day=1 := by rw [hn]
    rw [hyn,hmn,hdn]
    omega

theorem epoch_dayNumber : epoch.dayNumber=719468 := by decide

theorem after_epoch (n : Nat) : (next^[n] epoch).Valid ∧ 1 ≤ (next^[n] epoch).year ∧
    (next^[n] epoch).dayNumber=epoch.dayNumber+n := by
  induction n with
  | zero => exact ⟨⟨by decide,by decide⟩,by decide,rfl⟩
  | succ n ih =>
    obtain ⟨hv,hy,hn⟩:=ih
    rw [Function.iterate_succ_apply']
    refine ⟨next_valid hv,Nat.le_trans hy (year_le_next hv),?_⟩
    rw [dayNumber_next hv hy,hn,Nat.add_assoc]

end Date

theorem civil_eq_iterate (n : Nat) : civil n=Date.next^[n] epoch := by
  obtain ⟨hv,hy,hn⟩:=Date.after_epoch n
  rw [Date.epoch_dayNumber,Nat.add_comm] at hn
  exact Date.civil_dayNumber hv hy hn.symm

theorem civil_valid (n : Nat) : (civil n).Valid := by
  rw [civil_eq_iterate]
  exact (Date.after_epoch n).1

theorem civil_succ (n : Nat) : civil (n+1)=(civil n).next := by
  rw [civil_eq_iterate,civil_eq_iterate,Function.iterate_succ_apply']

theorem daysFromCivil_civil (n : Nat) : (civil n).daysFromCivil=n := by
  rw [civil_eq_iterate,Date.daysFromCivil,(Date.after_epoch n).2.2,Date.epoch_dayNumber]
  omega

end Lib
