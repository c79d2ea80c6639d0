/-!
Names of punctuation, arrows and other signs, with the codes from 2000 to 2FFF.
-/
namespace InlineMarkup

def signNames : String :=
  "s(8GvVFPvi|6jc^z~M[?@3R1!0hMVJV=/lzRo&t.1sCy1AWADdas:]1j5_WK6.;r=1TohqJy9PD9CMOV<k@X*jyIqK*lO;nK]TS6mk&zuxr!=c2[o;A
HW?6?Gfx%UlD7[s[[!M:*Bi:[CL%hj*j_SN@m|U))>P,9tCg+@uvA0_QHR?)H=*K:&xO9l4KhkaWKMSmP6o*!19q'aOgam92m)>&,T*h1;*oIU27~IepFl
lEc/zt^^/YKa2<Qo6K^Qv4O.)8<qwsU*`wn.f'dUU3TY$(Ba^r~d5=wM*'$]G@/<u`&Ta^vp(F8$Cq!t|/iG:v7Mz41Cbl3'>//3hAzcOZFbo|pi)d2b_~
Xe~lsb2eAg%!g=g~zYLs/1KgN]E610]<AY/P*3gjrxy_*CLtS6P!27U)JME<S?5X|7^z9ncv&^_81aL=^O;z~e$Goz>M5_66Z~UhS][~kZTc<S+h6Wlp=y
ysmu<'_[0ut(PH6mUsE]'X%:x1jIQ91Aaw~`z&'$HC=k:go'|HYmi:(j|FI*)ol0rs3FV|V^uMK+u6yh]H*6w~1Lx.Byu;]AguyeFQ3L&vrg*xZR*oi|~2
Xy&'$nEMEDhU5fI0<Y(g8Bv1gla2BKhzK'yW`4I4=~]QWMR]N*/,?`[Ciq|EjdIY69Y|_VD^;5_q_5_W?Ihge%8wrG+HDFX@$.~&`O=XZ7khB=kkU.;J5l
61?!fZ]q;1MWs1crJ&F23>IvC7[xFkHV&pcN.fh6TltE14<_3TN8^XjhQ|@9Gyh8fw4Wx*Zj`3?G=(J>BT:2Rn%f.3!wbid)d1y.8U|.'<4tOoAX*RC:bs
ywD(]k86w_mbztH1|XC1dkAR.YyZ@d=bm:V1z75f@wf/!e^/4AA1_tLmS;cM84f]J|*/pyK*]_aaZzp&Ze^PGsaRbg^Nu]Lx*>8gl,7EQORUbs$!(QL@1%
kNubQVUbqKd*njx*C)73L7dqTh8kt(f4kj*N$vHO^lYy($dx_l.kJ.Ts+9W]&lr|AHPFwwG~YYIFzfr(Hz'wuJX]s<j?vuYl:bX@k*pZ,=1osk%V3@Nzq9
Y^;;snM]MzQU=`O8VtC/LmG2;o+Ox[k]u252(A]yy8k<~qfCQZNu?Jg]ymJFa>u22+;R`*EB8&,Ezgiz&EV56+|k9U>s@_5ry6ayc/T6s+0!Zn'jue|$iN
lsKbh(:(_onP+t7Q[/`=N3>AWoiM(1(tAk9foMNORfi1zZnYB~RV8h7nR~?fU~1F@h1g_s@^~Nls95Y*~3m%ALn?'lIE4+@.yN8R+&LGeO5o29wE(!mLEa
$6O]Pf;T&wH[Pih]GMFbP_<zL)pCO;%&`Vq]U;@mBjjsUqmx1'3eQu=+o^O3t>fRl:$,XpN'1E`O8nS)>5G>0<IQYTxCdOqD6;1$M|XGTDf`~P3p?a?aLB
WGvD*>Kc]bAv[J?o*X4E$'z!]55Z&^,KafXf(7z4mD;W<bO5&hVM4ss5KI]XHhX$72Ok1ca>UjyS(lu1b!`|l)N_b^fp[+n.RE8_%W!9?j:7`dbM;[7jV+
9+pmm?@6HU6'2NQW+0L1<_71fhjvM%]jO?@)eaiq'+h*`;K(x=l];uMoH5HgUhR8)qvi<S/)p]t:+[eNpz)8*.22Tj*KdQ&h>&q.WDl(Z`6%6Yx_q]Ru:/
Hg~;~T,p/yb=uL^=oJu?Q@h<?q)cjK_Hd^smMY=~oFfhzi6+:w>NE&t'KX?_+YmL1*@&18CbF$G@bA9TyT;!LXU&EH$9t4oU!Y/8J+eb3'7vxku5pZ1KW|
U.lvzL)Pbex$`L75FiS6@qlA).gC=>.s[/.%fxRoIVE3[:$01qiD<0h^G`a?;766?z91P(69yXb'p0;^2s1/VCLC0:79Ic+HiO>Lai3i8s:;*aS::vR/m~
dIQg/O(_z<o^u/Ew4>[Zk~1*ELISq6]'L(H!dqll;7TN]+Vd1yN!.=4X>Q1%uOJ2=Ty+<+%|m&g$dMrWJ)E4rbVRN_j[rQ6/2!(pC;N%@y`G/!F.qfVkl[
6Y3%iXK$DIzX20Gk^5XtKnG4~?y:UoGWOkrNKGq]=K$~nR)zKn3e_bWR7hf`K[HFIR.~X8[VDEIuB,@]MB@Yl5h)L6%a|n,V_b*S8Y0VKAVRYa$g!;>ex+
kJF0?C<Jg$w895;;v9,&mt]0d|sdOpW6||Dc:<fzE|LDq?XXK:P>I2E*@5isAhF08sn9Vx+nS_Q.FVE[a>*P%;L!o(fyh0:%w'Jn@fs8jPPZsIu[1[R`ei
0ruv.y&QWw&3iWp_WIUI2v+_GoR2~DI6GXyVbq93fXd)tKK:4*u(ZEJN:Rmv*Tq/s<DeO7sM'wz,[|Gn0a%Tmwd^8$.Js1j8RWmXuC!d|[q6M(N/6~.?tS
zZC2etfM8ivd&nIjCZ7vnM]sF(2w?lwx/'=c&pRI&%d$Hy!sGw8XPa4OaDJg.:)/ISX!R7la11q~8qO+;H6b5rG']:TlkX!qMw')!@/+G%mX![`;:M~$aM
(?|O7TGBv_pv|E%|BHifBt.o$=Ubks<,lX7~w[HG*?E.hKzeA~i4LUwe+KJv@Z`Np@HS;qYth,QZsI|y;QAe^l7U17qrpDlZ6A|n`hrzXu6@sCRDpXY!b@
]u[+$^Mw;ShoX%KN<OoH;e|M_r=|aEOb<//W%1~vm=RtRt3vDcM6RjU,]RpJXQlY,<v/U_RPp%y:k$F/~?W=ZH=%)k9QR5KF7A;df$K&^zO4LWdL3.,hqe
tUQI<?.K^Pe_8QZ)2xJBy@*b^Amc<!|aC9O!F$[(VHRTJF!)2,dao`pfneKOT@,B]l(x+va?rIX2AG~Me]xY8U8+y!CgmQA`EDCiq(9F.rZe8q%k139D,o
O~wk:(t4MhvCNM~Xh2(+tm5Dg>l2b*_3ap<7SQsHD%fbBDh/r:WtCSDuiFatr%!2w7SLb$L]>DnY_cPP/g;WMmoa'tt6([w@?()xHqWDc@Rz5LdDi>=.Xu
&zTs_=8qh*!&V8p&pk$%p~w74H/4Ggfa<GrElL*8qcKIjy|j?|^q6.H*+wPZ&P*:E)P)giOal4dEk=0DA'zUK[h(CjMrm$AnP8CsHdX[IWN|:kV.cqOb>q
CPPPkoH]u2PQP&gZ*A21~M>g*',Bjl*_(miku@!vJ3g4Ob0pXozKhbR6F![1i`d^z*Th9_qy<lpTw!dGDDpjU[./N.1?r0wm*y[LZMV*>)J,0.Q.!LXqh]
Fu!@Xh]p&<=D!RaS3WtRMsGO`bFs^r3g=CH8o+4al)VxPE?BK2HtWltW|jJ<tkV8PNj.'Y4QUU7pzc*ZJGF:=dFHakwAyGsOeO]AF2g,b&o`f6G1)TH?mD
+p=+EeA(<W2jM5@Et|G!E/Q1^JTx@QL`h>15+UI$X)V(%J[O4lF05IV1t?,q`u2&`gzhTTj!<7*O$tGmF=%)8aTNmvMq]F%7GnZ=cdH!*]AHyU:O~rrQ>7
7Zz|`v;!!4<h:/?Jl=[Qmq*QZ.*^Z&:!BUU~^PZo_Ctw.Zj@dT2JgEeJvvz^0<12M(YFb+Y+?dqq$e9v[1Xa5HdcG%8MS%X78lDPpHki+_/DTX9B+Dt.f?
sfsg]H0~pi,*`yJindu@XH8oVmy?1S:s`o[zce]ipmIO8|oFy@R!.w$G@M=*S(:!qpVPsll`k_v*XtN'M:c`DnC4>DRD1NF%/r(bk8]Ry.rxcAIU]YE~<O
La[AwNi(tk|$YL_w`*loiZ:iT;v<Qa~Y2v)6u~X$BU?Qs9J.14=H:~iqZ8ly7_,NECj:W@&KkJ*Znv$(l:boglECxTCY~+WiDxaW>RcB3U>['vCVu_qu2d
,])b`Nn!4(;XP&em3xrcijk8T.vJqy@'`uAhLR,QkDVYYbh+6nxi^C0vU/MHUJIAv(AaQeT?<F8Ape`a.<73o=*Z6RCJ=<FT$J1OCI]`7|AdRdXo7td2Bh
_!E|OAHZ=AZtPIj0DEFS;g_jsJ'*.MFf|XKQ.!8mI|AhvaX62tOr_A!F]dAR7BCh2g*eezM6rVkW5pGzG4Bb4]i1ySwrY>~6h<etF;.oXGy7WREe~'D:rv
;cJbcP^y!g`6U~l/*5i;zpdo56x.v]ET;Zi/=e'SF!N,45lkVI!MK__IG!=V+7cqmn:;S(i_o;JSNup^S.N63z6L%h3pq5jXrYM^+;Y+4vQ_xhyF<oRiu;
K5..m$*g0KelaOUo=77E?KYwlxo+z7iR@.IokVB26YoRo0s^w+||5AFV`:4Mdh'C(K'flf'CN+^)*TM,Q,!=_9b_*ZZZM+y'y5YiHuS?|A2HN[TOnU^+3q
LBT;h&tD/5`o+dH,FM:~1lV<HzhLZL%4sE~rD3E5$i[me'VqKRJfuO5U=zqrILCo[H<,&$dvRs*))'4GEy~W%zbt+$fx5)Vd7r'W;L~fb~)ve.N/BtqA]!
.qR[1;9fm8MJSsq*Pzru(d3+$q<Ac^3j5^5Vh5Si<)RP$78c:>xA]]3@_02Ep@@e~^Gk4GH3vs8U!cTA`Ujv)2_);`^OI.J65lxkO<V)ya1/[+52@i2K!w
AhE<@U*YF(Ncaiy1/*/mM@.n*AzRbb6EkFp5K5D97E713H]O_9,Z.MJI=yEoM~NU>6X^=_v(pAU<4n!L>DYXySM&cf>0=R|$Xs:2*4nHA23F>6`46R6>b:
6_ALR[+;G3PYDA9,<wd|@9bZ%AOXa!7$@V%rnZHfXO;7`E)fDO$H2c&+!/5T6Ip)Q*L^>CYgIs>%>gD5l|e(6Ib',%zyjt=bO:p5Eseo]Rhx0!A*&;|'og
IWVlOk_VSbkZp&FuYI_W&F<[wu1_Pr7.=s1UGn]cuQxuf3u^Et(:;vjZU59Jt<pk+Pm27pJ?<|)vp=aws!f,16&BAd@M,,Mm*U!n?9(3:|O3KOE88bW~B+
cP6ADh4I0+8;X<F3D47%>J2QsgVZCHUqKA1PR`m8<PPIh6a3Y09+Y8>m_e$)Dq.fR5P&i+j0iE|.Ptk3Lkq4D.~vZ[@Z(J)^At*=h'<4b39%35;V^L$<BU
~4;i^j&<(dUe[KV52?)>FRKcK57Km/B;j~*Cm;*zEsM8;C7x6J_T_@Xs&_4(T,~52m`oA^If5?!AxG)%8u^Yu^$DO/)JJ,'CP.KhkOWaC6@3ciI530sKPu
tq9lF|Hp$AuikBoy&>^%24:hUb,>PDk(p~;~R:9+qgRt1QbUeg>S'UuJQOeM.N7tl'K>sm1UWbPSTX^Pn+1=&B%3G:wnAz[6U+H9:XUUi_iD$1~??I0gC*
0^L(s(4@3xa`@TM;FM%?MO'x@7%<LRtlLXGuVp9~Gr9<DDH)jG3`n5Wy,!+~Xf>p_rGG)ewBV.BSp,?gxdB]+EGY3c<[gfHY3`)hS<(fW[fZ2GSI;bRvA>
P9TdZtq'h?f+^vK1`(?2s/Kgq1*zp,!*nHvJ><4aq/Y[BXaO|insJe]cTZ9bmy!.Tb0X[nTdFdalJJS&NH4*a$(6E?glysfJGJ+%0qa2tFB]@s.2`|JMXj
`D~T/gb['G!tJ'.r>]lWpRF`uuNFjg6D<x!rA0goBs7g*wPpc0D;fj%_r5KHC~Sm:?[kJ3QgEtOAAHnz)X$v%kg[NM!$<C_,geJHS5OPIc?zA~ut~9(>r*
</<W(ZnUjn`ZZ|>EW$eW(fu5h_x3M.3PKMW(Q6S]~gL,rZ25On`o0wXReub.&y9dz7Y,Qn8b$,>L))OaTET2_LB($Na=6u'!(Wo5/$QmE4v~pvP5g<?UKu
2NL`~Jn5'N6&iw(sljuCk5'D=z]A8sa:WSYE%2a+4kbRcpx=qGK[4ES@C!R^CdOcu+~!'G%!,|r)6=$wSrM|9YRy!Xnt7^XKH(k>Ir5hJ|M^2vlv`4_[tq
`(hOzL>i9jVep`C?i[4,i=|uk~2C~QgUI>VocyI1*XHJGU;=YM7oRi~;haPbsMv:pixJ1mZ^Zr3+m.4OEc,2o,>Rh2rNoQxu=^edQks+U&U|6QC%Mx)pJY
RuoJAJR7gx@u!IGEPZbxp|P&[Njy2VfQjM8GNiZgcNRq%l$?]SC~lv'6k17~%@Xzl!;~/|=7:DWd8VC(xwP.xYf'hkNbqK<q9EMmxQTCvvEytJoUupPO2&
yE(b`pX=L1?VRX.XhzGm(!rbI08~E8;U(.VNf)FFmv`d*S?.Jds_Fy7UmJ_z'J`:WH^3f!lKW.(W^2tTi?Zbehqr<7=4~D%]71W+Al*mtEtj5iWEm(:f(l
9sfZ.%ozT)eg~qeZfcF`w!O_;/RQLIb*`.X*ZhbWOG?!!@9j|^Gi>h&.lypqCSSsi,:wc%UB2S*Z4xuy~bMCP,ZR'2(]'IhI7`4vv:fOxYs>Ta*0/Ey;m@
iKH[h8R.g*'^[$AAGe@YMEzTQ[mgzAN/6~jQ7D@*J_aIsD^Hf95FQ64WTYuVIu])%B+qIa<?)M.>K.E[)yi03k:BW!X,NTl/.gL73Z'HEXn`'P'TxJ9w(m
a=pV:89P]aAz.]:W3pJO]8G`%^T3WIh*7=WcwFYyIRg~P9zEH*em^P]LvPxZjLh4jox?=Wu`r!ZtpL:p2rJPAq7!qngLOUT(;q2,]XQDn&NJFlDIm!.Pj%
%Eb,q3/:R:972f!QO%)fhkS2`7[Or1JtXb[F@BH,Jz`;U3j=nuFjn'R4;u%E`+/siMB5jwB)oHe=bRzP&!hLY>~?,(^`%$0!H[yGH4xZX_UyFMgr]9rNMq
wR9Kb$$iFus?EHmGB6GXI[/F$Az+IVT5/7h/`eh67%ylGUW3GRru.6wAOHe5PR=`HBMIqIfWN]UzirN%D<0/.D_6WEdT`:s4b|KX~569V0CW4eo=C?+`%^
mGu750@mDpIF2@d_F!w9/i%UMxH?'<zc8Tn4rss:ph|I^H[^u?,&=U8es3J^N>khG|,dp9`@lS!4/@IF_oh+EY6d%~t,Q;UM)_Mn<]Th_nLj4'i!|JftZ^
QC%JU97rP=jg5zI8mYSNC)`h!f5f,KS~60e8?nP?iAwUHO?[A]vsjJ)(vVQ'x6v8c>'iEmGT|+CTH[%3_VM!L~7*03>piQyU,@yod~lwIj|Z.'Tn2Z~=!;
PzH%~>7i)i;!)d>P/^>%S+$6`xzKmR/<?!ua+((MG.|vp=f%!8tWoBl/T%mL6Q7n($[[(9u&TR4(:qOh<:D7ukcw1AkhPYg3$,=P`W4K8p'/[_ndQs~'&N
oN!2(y+0KVbH$5MBuPl0pQHs+>f'Uv/Xxc@6b;h!h||h^VAS8pCZ%+q7@n!Pm,s*2qOkwHdLWS==jCZ[Kuxqtp]zLT]O!HXpwua($OW%UylCn|sdqv*hCW
Qfsin.dAP+47V?f$d|%WP>bOQP%gKSABY9*'/K=gwyDbwrz)CHp5JuU/:@O3/G|3&h$zb^Cw*pIov`@:9Zw2Z|mE3Lk3rS_Gy'ycIet?/kl+?heSoC~$=z
eU]4Gcpk.01aG[!fKmhCF4o>e$G)9)$en7e=XSzw:^'eypLGG?cN^/]t.<GjHZsETs&4/xop/x[bWlBK$.LCB,v>g53MV+WSx,a22%7*MPcizW5!Uom9i?
PLcW+eC$q=]>W|:jLy;1:vF;|Gp*+cC|UNSUPq)Rl4;I:WXQ.U@gFaX5o9|!j*[Gl0?9!D^gD^upl!HOYSF6vC~j+5+K0&dBNXu~&/F]L?@N*^M.Zgxm7'
1|7yCM|qH=5~e?_keJ^/^+W|vf8K?;a+yO2hD;_+r*IE5ts`m6]>M4zzv.uuKL*OUZA)Hs1BzO(sA!yrx:d;ixeeGh/'n9L;cg,<.2V>hMHpqFHNzX>%%q
E9^]yVDbV~60lLa!<x;rKjg+=|RcvcE:b3X5OPy0?wl(B1=<(q)a8:f5uoRLL@*v9qVg*8Zw9ZB*v?7]q3^a]z,13vObe36)>C2WRGU1@i^yW%FQxH&7AO
gHI4|Q!e$7lkrE?P[Ao1[nHbPM6mxHa;v0L;OGjG2C9iuAs0)KP1mhE;p,gRdS%%~6.V3`]L9Ad[CBA~S=<u<OGMqGB2i=zR$>=jumIh`ZtAv4PRLV@>+;
=eC0_wNvlTeYL/0YJbQUH|J4HqncC$|~):'m1,.5z3pb^e!5S904aV8uBFEC6hzmJ,h0r_$;vrlqCtp9Bc@i]$|LL:Qv'4uupv;PV31373Ii<|p,OIFz,u
L?!;TTwklR4>n(r~kL7v~XAV/oOKCq1?_.&!=/=3(pNMN3`B$tqoh*M`VEkFcX6vi0C:^eqsDtLy~SZ3.om:;kPWXZ8aOb'7c^XF1_mw&l_?MydYMOt8^p
TytO+71Y(Gl8Ure(Eq~nZ'1EM*5I9gc<3?Q,r8UiEDLCNgF0,>RW=B)u%sd,o$j1R1|yeQ55dV2<1Q_dQkUEd!Jmv'1Fx(ocS5Dy7HE(SvfI3yJ;h>LQTU
4]!_Kd]%4sjp!d.^6JEaP1B0ZKZhX2WYLK=fe$wTzJlOIN3/ZyK!.a?f/Fp%=<Ki]&mQ7Zm(ZyW8_|K_Fw`CF~VdKamkGeAmt^P1$<Y|5!2:7c=z)|~8<G
MDUh|=pEx,K`ypuELa0(katubELo1p4cty/`,Ysa|0tWx%7LRKl(Z2g;$!5iW!!'?'Dkjc=_4a+)=Q`rZ;;+BVQgRK^dFpTLACgQR;3h:_eUpkqLiIf|@C
(3;w!aCD_3;*voSM0E0f~Hfb?bO46liD_|`W:v_+_ZSEd0^:WQq6DGp)'anss0H+a`27yaUw(K9v7zXE5Otyyu'tvhD:bon4b1`P4sipnH,tERR`t1LqRB
curI;S1z.MEc8nQ8d*MgKS=yUqO4v$P,v(aG@f8*,K&qJ]ld1BoJ%C./9KdBNn$Fmzp.@6o8Ve[EKpaTw`$;HDif;JlKg9~:K7wUr1&Gp.$PA,EM$gS/O`
S.RGJY]%~V_rG%lczo?LbFPD;6b^g@5~&QKMlB[`B:GPxnZW5KG'49j[?4G6h/!bIL|_NB4X71H0><~FQBcL),iaR8^:2VI=h:bnULO:`HLC;at$NSYr2=
5y`)Yp.Ns?D;@3vrd'Mz3WfRk=KcFJ)ax@?:Q$|mZkU%^WG:,~osT/*;^)K[?;gSsO*r5FtbJSzw3@+v?Mb5V+B9$]$%(X?[cI]GS&yT]iNU`Z8r?ryYH%
;s2Bl/Cbe3Gj+wD%9.'yF,Ig8lV>hT!&]HkECgg6Zg,SaS>o)D^ceakb&jCNS,YO~1Mv+@a|O4F%Fmx<(6aB/O>6d*V4yEsaZG8&Xh<h+rGtTx=3QQ/NI)
e+?0;_9pjd*BQtjf.cz/)f2wS']%x(C7V)0v*I1L<XP[jAZ^<_h$bng@X)pRsE(lY?snX34^C7mL:gxNu5PDy:cy*zTLRzsl;&ST1I@9OX=OAo6%Lu(j|L
,2qIpWTyl)ocn][rf<GbgpW6lPYMMWFl')^Gq$&_qVVQ>7.LJ;'`s??1R3(RryG?<Z$]NiK'NMr7R!HCmzOHV.pxld1:UORV&C(T0@|SBI8e=t5<(qD@lv
YGtYVNFLXmOw1w,Yw2eWE9[q0~/VwKK$d7uP(~y=j8.YSYwPEc,_EMSgJyeJY!P,/H[7]iq<ZHGY]BxBR~`<HmSV`[19C8Y`&1IKB2M,,D6Ju!V+^b6tha
OYVX7wiL?BLW+Ca4L,io9vskV~,WfK8Fo?FlnlnsrSc:q)xJ*2n+RdM9lTLpP~o8d6qB4R6jAQCIhBJ(o:Fj:yqeag.p1AQVm43@(8qf.C7cx2,SparQq3
K*5_BRhMkdNsj_&HF|ayoxsgz?*G&C@]%]`?]of5nm*Ck`~k$**=O0oNam~Ka:~ihGm&MCc]Zr2t4KlxHkj*Ex,Uv](wCh]EN'vxWJ.J$@W,~Ow:0<`!0z
?b8^Xcnr4WY%@;rUuB3O,|xLtsfDWzSZD2EG:fN>JF/OK=U0w@]GeBexE9&/mkkU.c!<6.zIAuG;W[;7!sV`s+||xVMurZqQ:pitD*WjA:W)^d<bqE5v7<
oQOJBn&Px$rz=2$dyXOeZ:Kwq=A.<Gh,'cM`5@O'C]N(5npReEm%&bu.|l$&=3dFu[8hR35:u'@aTm'TBI|tYwxeu4q2WRI_f<d1C>uJeeLcNpc7!0p@FT
+%)YC,ix|pT18*]HGC4v+O'lE2L_|Q<I!/z[r8?DP3`+qk7kud=Aw:<vQ?OoP$Nna6Yef[*tB,gTt~7f_GKabl4o=4nh&':@<g|r4etfPS&CPYS)iOj8Tw
t`!PaxfGk+K_CNx*E]^:z*>u$u:b:I[Vr)RtR(PPAHj?enTjlJxGBnCA_i5.B[G6f`RM/lwI@e(UDeu.ja.oiDU%u0]FVVTptGjcH`d$^J](wzy7Y;J4Rg
GFt4OfI'G2[l=absi]tW5)*2RlRuF<M3b[zMF7/(]10r2:?k%Q^IQl=32a?[+eJ.rA[@jf$<cFY^Iy@J>Pg$ogOeXF,=rT/t06m1=K=Jiy'~.>SwgIPOQc
OES`<!5.%.yb2uT.5Z,ho7Jx%<3XZKow=y=BNYj:8d2jAMzSFG1n>UJL9q^%Nnb=N,+kE'Hm9lxf[HC=/_|U6ez?|h'&~85d|3KL]!6RG`z)uj,(Zb/o|X
HhR'8J?MJ&?)G@Npbjv`jXnFow1Z=Ry=$[pqDgk+8MKp!8`=FksGk^A95V,*7>GO,Y3aZmDc%zy'|cw=]8AH8CpW5d)9r|<f!S@;sC$vUFM~m65`Nk`I.N
)Zk[CL+>5L5E!WpP=9F~T!Q(i5Im[],cBJO'Im>(jcZ2qun)[[L1YkJ%+|)x<M9:3~'pv~ddaU?(Gr=N@!FUVb7rT)dd<~.<Uq%e_ls$4qDU,>MZD$TjJ@
9kNsH>25K'^'jJ=Pr'X+A|n/rX1S;a8@qR*b`GMHt!FJ^zn5;q2<G]*YPO9H,fU;F(V0AbXPki13o;JsY!w6&!wzfxb>y'!ss+nLZu`aAS^_pohh`])5PG
0CjP1Hp&Y)$m/Lqfg?GSNFRcqTxB?w`ru!>UFlCBBZsEAbyy_8.(eWTY8!)r=r'2?2dN`Oc(xRo8F4N@re?OBI`2J)~@y(b1[)F@N([Sjpd[G[m7F)H%W7
W5C`r5+K%.x/Z5Qe[(L8,@>XBnaDMe?;=f(0,mBQp)W!xuZuK]N5a~d|QrE:%f0w+~r/N|j*j3UW0R:S8E`N,f^<GEM<|%4w$H:;@3lC885NGsXVo6cGA^
g$N*n7Jds(0:Q*M2?y*Ux;d*K0L7Mps8hd5e(gKyPl,]OY]%Jcy3boZ`kd1vrf4GfQ+6S?hi|_oU.0p|Uyi>/MHQ%_JuXTv]PEV/tqHT`5woCEC|uh)X?`
cNdPGVeb/wz<]]R@kVSRBbFk]'7pKpO>4PdLD08QGX^J^HI^:9pEk^5jt]/2FP,RG?+ev',ca]^jPCy:a&g8xCLj9!>xhdD='A<10vdDF$yaG>^?k,^*2^
JHYfuGL~s*7|~[&eSq=U^R<NzlUJn+8~O:dY^*1|W5g6Giy6VNh]4jjBBwr4W=@YM1]ZooGJO4&^2lnuhJHn_Vj;cxVLJ]$2|%uh,?Z:l|zVz0h>$R6r+u
r%E;s'By4C4mk5slv|IrI+K_YT_d?*%cDjHerE=$g!xyRy!RXhs>y*hyz_Pp8G+Y%swQ!SApFeeA;ySUAN/qCZ_@C]/oS1S.R'(:~NvTCC*IQdUG!c|3kx
k+7p<UOPeHSvzn>e&?Wgy!_yhzIVN,cUt/jddBn/s=;DK9|<]IZnr~4=_n['RRJ8FVt5TwziDLSvOh)+ZDOFjiERY8ME=pPI$B5PmTd=zp5mvk*?elQWQ&
Vl>yB![;WBurk]!$oCCmbE@f_Wo&]@6PeFr@*Lc@=Zb<w)$gmK($(&i>Jg]e8%p73euimmcgED<9+uR?C'T)fyiU%gS,Aqs3+_wAgr:B2YW~807)D4sKsS
e;+=Wh8=FN]!S0O``u<Vm(NKYnSE;McbJ&5VS%y|.,;y7ko?^+qOFJS~Cw9J@!8XCe+&Q.p3/S6.T4m7GTZ:GZglUZq@]>d!Xjh.P10;^u5iR.hnK7>CWM
Z!&xjXJ!/Zst(LOV,tB<?*'!k(CjPZVNYKg%xgkakqYk>`+LbGqJGjsjKEnMFU]a2r9eQzxctWmcxG:[:ipnrwJOXB.9PNma+F$G>()QZ<R?DA_qa*^g`7
/<XTXP;4/YrMLFNDoQl@Ic5T`T,NEdBTY.a^khoiYZFarvu!$0uwI='L6ZUB0]W<[`$Gc?(L!21/|;wW<:Ek*o@EFD]8QyLg^0v8c52.;fsqaNg0FDFQRi
lAW3,2Kg)hBNtti!g]Zs;2)uID$eJChXpoY62/Bq7'8>EC&dvui4Za;l3T!.4/3rVO+j3UYJ$WB?sEG5|>hg.Rw0x9R]oLk`6Gc=WNn6<>Ljt<o.%=4&hd
!*r[j<NLXd5zI3&bSwhkPXBc@B4LF6F/k&8Zd(Fg`IM82G$&Ea1+5!K3K77'Y1t?Sk<1>p^z<$RwWAHAx'Byw7PH5H~1<Mq$yx%7vl%t`EMmb0zae~k*Fk
n@wg.]gr+slikQ67YD.JG2iB!d1t53jHh_<%<2`[!`dOk`+I~]XpfBo]HNSv)ansMhUSvxCQ!f>xts0lq|UzHK`q!4,hd[,=6BEH7*x?l6V1%6q|6*''1j
ZUuf]k]g1gA&N|ogG$B*l<Zp/nxf?j>tU6PcgLcWP'OIWmHaM]FEA7Z;+yw~XxMCUbb@o_;RQY!4W49GdpKa|CG~&CCIJhX>satYWx6>Ch3mSM|K)lm6[t
!i20LBrKn3_.R1G.Oxc?CttKB`Re7AUii~LvK;a4o|WLoAY6=7F0byXXd~=D>GD8f5pH6z%Cl>XNi+.(nx_~rwGD%EU+MT7)a0*Yt:Ilg$BXt8QqZ)wi3(
O9R,c%YJ1z36`E9U_iS!<;t7]|hl'C6Wzqx?Ofc>.7K4ZTzN_z|tr]Hl=?$<gvFob,+)H[YsjoCYnu;?V+X[8UHkM.ltgK~7=hU/_?%lFCY4_vSs/>Tc(?
d/eE(IFtT%!_y=4d_jUlf!G|mAa_1MFBoJY+bHF*x8>Dj|!O3|T|v5tNREzcNtnBBkr+d_2eL^kQ22`p4Dg?NoF,%4XPc,zs&A!Kn`R4hppY&7vQ7qBM5!
I5fG^2UOk57kc8RDE@uUYEkK<]|Vf2QO~3cJH,iK1wj2R5yG);?q3L4:)K?/mbxc?4%X%/Wyw^:WjX7S+cB+(tK=1Xhyym84e;3<IeV'J~D+Q~Xe8TN|Yt
1dJQ>tH6a$*32Ulyc+,^(u(`ZH!a|`%7NVKv44Kx0~ar9A~xtZi.F5bCSY')G^j/I|.@XJzz)BGkvc4/'O%*29W[Zr+1d(1`n')M!zzENPI6d7Q!/%W.G|
|g'X^7BJf1J7l*CPDXJckH13W`gPg@$tN[?ZJu2d!4vlG(40:c.0+4j.qA^'Pehtd59yd<|s0GQytqiojqx_+f]$*mmqg]c;eEL^Qx.CcqkO;m]HT5PaK<
X*Jz2;*a]xpq&ZR(BH(hc3VLFu'.emhBr*8mlL)%HjShGvG'BRhJyp`YvizS+0YmQm;'3UuR)C7^GOh>$vP%Um`|q5L7x!<cIGO+=?>K]vIcx%BjE%SY97
p@EH4KzWtoHpC)5,I)]FQ+BPT@;B+S2ek(VqMKqA.ZW[:>NSzu4=::gUu8HNe(<uZ^r:!LN]+YohdZnL`DGEq+edJ./~bFf'0(jZn~~5%]](Vq8N@iVp0d
AR%.67/.:PCS`c<BY_va[YyDEk=EM1Ds;B>C`M*>&,z'DZD?&0NMn=2[C[4'ySo~lV.ULjq;TplXFkTp<&mHI+r3w!yJGARyX+<d)JAg%^%r1amy?jdh%)
>?Q0CPxpnOY~DSzDd00!WUJC,4~8IrG:fwGue`(9s1E$dT;vmCq^QT[w$nwG*xUdSfuo^(zOGb`>>Z0>7Pexx*`r<$ig'J3gk]/N*2J1BfKEDl~Ai|1U`r
xnbFo|Jsl2Px*>L7vI7B|ry1p'j(*kPRV&&8EBkyrEVM_VlR=jMDFp|V8]wT?b4k6b(?|S~<_Y~`oG+1s$R`6ImFicjs`7%QWBMEPq'rh>hR3Hcve+*%6~
CD1HfZs*'qDWkCwx_vFb5`+6.Diljb>h+arH!yU~x^<)WDyG)G=ZQ!b=hip6.X[6znPD!Iiy>z<t,_&3tmS<%bfr(1<h)F8%>Xet7rogf0UY2cRwx&wQ~+
7biOk1!.1YD6ZgB[Bb|k,:y'M~6N(*Rv$SuJkD3M':G$hnCnXnM~vpo]FI6>Sjp1lsLJR[B.H?Q6>OHhB6/qqpPJmPtg|51qz`_Dk$uh6]V'7/>&O$9BKt
aTj05UilSrQ^!.+CT0Bt7tHY*$@|;U+wuYw0)|x0b1E6QCT3q=ydJhYp~0`y7cB>=RnCY8o'*I$_D75d'q7cLNDS0VN8p@<1sN@O4iN|Np9:pVe3=T!Xra
v::(gbDms~62$eYSJnV2kV([]mM]SqJ;5&37&m~E:<Dhf1(^;?jfvZ=pzSw/O^Ndt^8@%uygz~W*9;PZl7qiW*Ye*tE*n$XV=O9.yzs[x^S>GjXkjtLF'&
*f]tN1:A.XHND8_6bXLQ][[@.A0=3C|og]~/H9L5np,Mf.LzJ%wi[oa/UK&)P11ekLRT6&`y<*3w$Hh1`kSE.OPZZSeor!6B4wO3b(*V,dG]*P@_J!Zm30
?Z2h[%[plhvPT3`MO&|v'k@DNz3w9E5ZNW.cYEZpgIAl`k6,+1jVzY/%0z/H>2E14TC:4JJ1g(8K'y//Zk6Sk^[5>(I:Y&E$u1o9B(CAWm46^]9`UO<X*i
|(.wcw+(OHQfS2RsbSwkmNM=DQ~ZLF/pz+@5TI70fLP]dmEE1Fx|G]qfZ+UrM_pVt<*?8pM~X>PWj<2V*O,;NslK6~L:?k1Y*jYrq@Jn~PPxVI.M)JnN3F
6'o+|m/arYUm2G*]kqg?bNNm<Jqe=_*Gb6K_8e$S6Hso)<GMh50~s[7LnPexUjF~.J(j]pBS4?inj8:~kdw,8)ND0sk&h^6?Y)5ozV!&/SPvk5kw%k&Ve|
svbaflo*Q'2H:>SE2t|Dh$eaVKk56G:vHi)b/!PX/<NFkCqq@$+lpsWhu^(8Eis$%/C&CbI!Jp/uX,%*JKSS=k%7Tj=Ot=*2WzA7P[u$i2wOP%VBGpQz~>
PyHXV65SVg%(o'~)u5~tX^t)0A|IMdnwhTjp:xo2`t!y,$FM[nQ$`W1][dX_nT2t9$$^l9.2bVUVS8(&yVkFDK;3gF8+a^z1rpQcsv;?EJN<bDp^|mbw]P
)d:$^=Pb.O5;4Y*LE!=PCaOyK8[aaB]7)FE~|$;39lY``9,8wu0%+ctifJ03(Py'0H)eKT(+j8*sk[^IP<`:d[mu3P,GSMruuuR2C`Z`^dsdXu7`i+]|3|
W1`xcJ<7]$fLkuF+PO9YXx%BGkG,z,`,i^x$38yc/:*S5?kj|]AfRP=s~$]9SRa[!F_)?5^.f>5Vtdr$31d;T+J~g+Kq0r>DEB~?MyV_Bp(6k<='CWHJ1K
,h<SRafF0&odg44ylNa40;8KN_"

end InlineMarkup
