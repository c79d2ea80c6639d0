import InlineMarkup.Text.CodeRanges

/-!
The characters that are written as they are in quoted text: all but the general categories
"other" (Cc, Cf, Cn, Co, Cs) and "separator" (Zl, Zp, Zs), the space excepted.
-/
namespace InlineMarkup

def unprintableRanges : CodeRanges :=
  .stretches 0x80 (packedNumbers "!E0$a.%)'*$$$8$Y$$J%Q)%&$Q/+?')5:$T4$Q'%Q3%R12Q3%Q(%3$@%$$/(C,QB$SA$+%%%:$*$$&'%,%%%'+$'%$(%=%&$)'%%
:$*$%$%$%%$$('%%&&$*'$$*5.&$,$&$:$*$%$(%.$&$&%$3'%0**$&$+%%%:$*$%$(%,%%%&*&'%$(%6.%$)&&$'&%$$$%&%&&&0'(&&$'%$)$2
9(1$&$;$4%,$&$'*%$&%$%'%.*:$&$;$.$(%,$&$'*%)%$'%.$%11$&$Q*$&$)'4%>$&$6&<$,$$%*&$')$$$+).%&0Q2'AI%$$$($<$$$;%($$$
)%.%'DQ@$H'K$H$3$1IT:$$($%X=$'%*$$$'%M$'%E$'%*$$$'%3$Q1$'%Q;%D&>)QN%)%_<$@&R$*:,<,801$&$%0R)%.).)2$/)R$*O(Q>.C$0
'0'$&N%(/Q!'>)/&Q6%Q9$A%/).)2%CQ(QE&Q&$R@+Q4&3&Q4*O%/+O(])%)%J%)%+$$$$$$$C%Q,$3$2%)$7%&$,5<+Q&5%%?$1&E3E3S+'`&=/
9z+%D$WM(Q$$$($%Q0*%2<,*$*$*$*$*$*$*$*$RJF>$R$0TJ>0(Q7$QN%R3(O$R)$QL0Q&$`UE&Q/,WL8T++T?(%$$$(<Q3&.)Q0+Q>+0)R@/B&
QF$/'E$Q/,2%.%R3<@.)%)%),*$*$Q4'RJ%.)UrL0;'Q('QR<S^8X2%R6J*0((>$($$$%$%$RI4Z(%Q.*$DN)Q*$7$''($S&'T2&)%)%)%&&*$*1
%%0$>$7$%$3%2FRG(&'Q$&R!$1&$Q&Q%RNA&Q(3@'H,B(O(B$I'2NS>%.)H'H'L+Q+/0$3$*$%$/$3$*$%Q;W&,:.+<)$N$,Q=)%$$Q!$%&$%;$Q
@+,Q'7$%(E&?($Q8Q0'8%Q)$%(+$&$A%&'.*,*Q8DK'0,Q.&A%?(>*'0*QHQAQ/Q*1Q**Q%+.VBC$N$&%%QFL+N:>J@8;,QF'H,Q6$(1=*.)Q,$6
+K,R+$8/6$Q!Q9*$$$'$3$/)Q3(.)'$+%%%:$*$%$($.%%%&%$)$(*%*&(S*R'$(BQ@+.SFQ.%JFQ=/.)17Q2).Q.?%3';T,Q4R0QK0+%$%+$%$B
$%%0,.Q>+%Q%%/?Q@+QK1QAUO,$Q$$2.A&D%:$2QA*$%$Q!&$$%$,+.))$%$I$%$)*.W%=T*$3Q)1eOR2R;$(/T8Q`LR/1i3RT$^/Te,]M*C$.'Q
I$.)B%).Q>..$*$9(7`@R&R1QC'Q1*5Q8(/%2SW8+m)N,Tl&'$*$%$V?Q$&5'+Y!QX8R7(1&,*.%'RcLQ%%;,R@Q4U>.K%QB+R<9Q>S:80QO,=S&
QM$Q?$%%$%%%'$0$$$*$Q9$'%+$*$@$'$($$&*$WD%V@%`N3($3j'CU(*$5%*$%$(TIQ$&2%.'%W0C5Q2($m4*$'$%$3$T9%4MQD'.'%bIQ<QDQ5
T6'$?$%$$%$$.$'$$$$)$'$$$$$$&$%$$%$$$$$$$$$$%$$%'$*$'$'$$$.$5(&$($5Q+%V)Q!'R003%3$3$I.SNQ0A1Q!',*%2)S:g4(4&1&R@0
R$*0'$30'Q0+.)L+B%%QFWD02%(&(&*,A&/()..)++*,S3$Q/I.h6gRLDRV5*U%%R|N2SvIQk;]2s.Ri/Xbz=U8R^^'")

def isPrintable (c : Char) : Bool :=
  if c.toNat < 0x80 then decide (0x20 ≤ c.toNat) && decide (c.toNat < 0x7f)
  else !unprintableRanges.covers c

end InlineMarkup
