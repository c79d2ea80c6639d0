import InlineMarkup.Text.CodeRanges

/-!
The letters of Unicode: the general categories Lu, Ll, Lt, Lm and Lo.
-/
namespace InlineMarkup

def letterRanges : CodeRanges :=
  .stretches 0x80 (packedNumbers "N$.$'$(;$C$Z6'02(*$$$RM($%%'$$)$$&$$$8$QK$S*+SF$J%$)MQ??''Q$OG%$R/$$3%*%.&%$4$$BAR$/$<E,%'$(:'$,$&$;
=*/(<$)5NQ2Q.&$6$*.34'+%%%:$*$$&'&$4$1%$&2%.$+)'%%:$*$%$%$%C'$$7&4,$&$:$*$%$(&$6$3%;$/+%%%:$*$%$(&$B%$&3$5$$)&&$
'&%$$$%&%&&&0:$Q++$&$;$4&$>&%$%%B$'+$&$;$.$(&$C%$%3%5,$&$M%$4$(&+&<)(6&<$,$$%*Q2Q'$%0*Q2%$$$($<$$$.$%,$%($$9'D$Q
7+$H?(R?O8$4)''&$&%*&'10$5J$$($%O$W=$'%*$$$'%M$'%E$'%*$$$'%3$Q1$'%Q;I44QN%)&_'%5$>(QC)+*6172621$&3Q+G$'$Q;R$*(%F
$$(Q>.CQ(B%(/Q!'>Q.;,Q,QJ$R(Q&5+Q.B1%.Q!>HM&.H%,*O%&M'$)$%&$(T4Q8V2%)%J%)%+$$$$$$$C%Q,$*$$&&$*&'%)'1(&$*R@$1$41R
1$'$%.$$&()$$$$$$'$/%'(('$Q+%QaOU,)'&%0J$$($%Q0*$4;,*$*$*$*$*$*$*$*QH$ZA%N((%'QN)&$R%$'(O$R)5DQ'4[@SbHQ8[d=Q;Q%%
V(&4.%8Q&4C%Q>Q(,%R3%Q8(%$$$(<4$&$'$;AQ+2Q)Q6)&$$%/@.;=A*Q&@$4($..($M;&$+8;&$&Q)$$&%%(%$$$<&%/*&0)%)%),*$*$O$2)R
?AUrL0;'Q(Ta'X2%R6J*0(($$.$1$($$$%$%$R8EX/6Q8%Q.L0R@($S&H>)>/R$&)%)%)%&G0$>$7$%$3%2FRGXIA&Q(Q&D18$+)J.B%H'+Q'S>6
H'H'L+Q+0/$3$*$%$/$3$*$%Q;W&,:.+<)$N$,Q=)%$$Q!$%&$%;.;,CQ97$%.:.>Q>Q0)%Q8$3'$&$ANA&AG+$@?Q..:.716R:QAQ/Q*1Q*1HWL
N)%QFA.$+:N6Q%9?;0Q,Q1%%$1Q$D=>HA$%$+G&$0Q'2'9$$$G6$=QL*$$$'$3$.*Q&J+%%%:$*$%$(&$6$0(S>Q,6'8&BQ'8%$$T+Q&M'HQ'8$Q
3O1$Q??I*T,Q!R@Q8C+%$%+$%$<3$$$R)+%K4$$$@$.L*$9$/Q%7$6QAUO,$I5$Q(BR<*$%$J9$=)$%$D2$W77T1$QGeNU.T8Q`LR,3i3RT$^/Te
,]M*C5QG5B6Q'4'C9(7`@Q8RLQC($Q:1Q8%$$@SW8+m)N,Tl&'$*$%$V?Q$&5'+Y!QX8R7(1&,*.ST)QM$Q?$%%$%%%'$0$$$*$Q9$'%+$*$@$'$
($$&*$WD%=$=$C$=$C$=$C$=$C$=$+zLCZMQ$.*4$W1B6Q!mH*$'$%$3$T9Q3Q<*$l4'$?$%$$%$$.$'$$$$)$'$$$$$$&$%$$%$$$$$$$$$$%$$
%'$*$'$'$$$.$5(&$($5R]8gRLDRV5*U%%R|N2SvIQk;]2s.Ri/")

def isAsciiLetter (c : Char) : Bool :=
  (decide ('a' ≤ c) && decide (c ≤ 'z')) || (decide ('A' ≤ c) && decide (c ≤ 'Z'))

def isAlphabetic (c : Char) : Bool :=
  if c.toNat < 0x80 then isAsciiLetter c else letterRanges.covers c

end InlineMarkup
