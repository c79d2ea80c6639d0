/-!
Names of the characters of syllabaries and of presentation forms, with the codes from 3000 to
FFFF.
-/
namespace InlineMarkup

def syllabaryNames : String :=
  "3%nT3lGVH!vRgD_C9.Raw;HcPZ~k%!eIN61?L?fY999GZRdhTH>O!mUJI[+pJEk^X`v2ow,Sx*9^T%9d(I)B=N|b0iuqbI]p.vZ%x(sXj,L<~4UFMJa
)`R^tjoTI*:bJPX%X~fF9;]KMp_HIb4^%G4i_Od5PwTK1EuKYmdr:~xgxSvJ><Gn01S`Po`yTYEK@+'p]Z*24yH<_psLPgUORaJssu!z`D>7O$@qVY$b]'
K]gut,lI<Vw0@d%M12Ep5CfSOH/WeS59)fiA~*)!+^!2hGeV@KNvmv)vk[q$,<F9ytZ]^[cO0kj_2<Gxe|X@_iU`:h%9,4Gq'Lyq,Bupv5|u3C4IKBmQX)
j%8VY%'$BH<Zk>v=;~4C$3u;!;GYN]GjSr13O!y2)YaG72Qw:;(*3_jKGF(h6ztyKv?asacNdfvY`kax5RL4HTHr!Kxq4Pj6D40^t1!0drCOv!NdLcgh(Z
=x>EC8&CMf<z~^Q|<ybuV~>).Kqfct+x]j|B+4Gnb5UM0M_c':l5Mm.aUdInO5Ru%F~Z,Abr]rWf?)3R8~TMAiN71k%|x,6o@L|az,(>,~N/UOk)Z_QR[7
Y6U8?v`_2J']6dXs]T?]IK<_I=m=TnpF=|K.4'Lwfs30%;GsjUZ)V.(.GHWjn<N+DZi|O=yiQU%9SB9,+uIli!1B]M^=Pd7b^.,lRehe_.7LLchle+uyit
)*.x&`Ol:*w]Z&K7&C_x/pczaUssH4Aa>L;]/i$MwBdVdVSL&_m|pt,/AG$._%m@~Qb=S;uy[2(%AWC,^yl'b30prk)@O@~6y.*pa_$mJ1&yn8H0vi`)i%
t<9r$Bhrx3=6NAv9(4e)f^^XP4R]Z:ujFs2,9kC9:dJle*OpP|9gFj3ZN^*$X6S|_Lp4)nJzY.0cj0]&AV1VF]@QH|xJ@:6;C4i@;!JyP7<d0*rb28EE^V
;Z<YpS,@a)$5d;tO%]GL)4l>mU9)PAwM&E_LXAW+~:x:Fek=FCP=ql17*ECHR:y.N!th,xEcM4KZ377=8Woe[ue(b4n,0XFn`+Kuv^Rj^_iXST7hM9hP_b
DcV_75GP.4NyQo!Q$4b@D%NQ$bIf_w|f+mFy^VRJOp=>9~CtM/U!~PHSK^zI1Qv^NwB;o@QJwi'<2xkSME?begpcnfV$3wlO[,M2ul*oQ[O=fjYApJyY[|
sQMm[Rd|]zC6NN%8'.c3<Wc`qhjg9mnW`hVDOihV]w*1~FFGUz`::V^p1Yv2H>sxxJszd1WMP|=e0`=!?aKd@1j7$RAkzk0*Z&Voee`S/)8c5HO3<tqN6@
o28175xT;&jp%m'*1e[W7$;4o?BzDcp6HK>$6fcFU/l'a@d0T0gt4!:+9Q!g_mg_qVMQ@`My:QRuqt)Soz~~Ja68F,0`TQ<XH|>@XZ7V%d57:%E;G|.8;~
[L<<@NSG/92,[1Yw;j@9[$0iD/<NG+H*s)|@iMJ(!DG~:cSgJ~uEU$,FV%]W5^BcSkpdm?eS=jHAqq$p5_3B,Q*Jn:`<`:B2X_HlxHvzbMa=6=CJw$fVOR
Y;X4HPCIKb%mZa~M~@=?E^DD>Y&'T7Uu5GT[+irqlw26>WJA+Z5vylv!m9p:XBPjc5/mUe(6e7`PANuk6kDOS&599]($GV.DhKLf0I_22Y%^~zxMO8'GAv
YXP%RzC`vC.bNA^BK*^)??4$/(Qe;m84q0)IYZ.M3Vz?(en<S&GSM3Px1lFvb4!@@V6Fh<LqOv>/?9sFdi.[+_rhqnWP@DPi?Qvx9b1XYP%8hI;@H2WbS.
_IX`jza~ZdICy:PB;g^q)H=BFju,~U:wK>mJ0!E>Vfa'%5jK9z!ybU=Kr$1g$j72SkL,|j<$9Y]Aloj5$(zpF;'5kqEbphwM2A+Ka@JbY4nH10/?'kF&>~
1XA+r,?$$*oX[B6dd]=tpe=oxL3'6kj<JaF+;lN:kALsPZa^)C]$ytzWT|`b'&Kl|!T9<fiWXNlI%*+1w28@B/_'=>)S`mG+>@EmWwzZMU,aX9%QauqJ7B
UYA;hE~i]%e(kds%;6fj:u`)&MQVMTvYL8o6NG76_,sbc0QhkLsGO3^^>0]j;z(]rLXqXAyec[I?[pkrmHx5BE$[o&?|MhsyF1NgF1QqE.JP,Hy8:O?B<o
kQgee[v'feQMDo$b0KN3NMD@./3%8[9HoXfay)hqOzlJrrF&oU_;$rlDi=0T%Q|(lJkNxR.s2RvnMde(b!n<W4Re=68vwKTe$9r1gWCNWX`9TnjsEGFr%1
lo!XRG,yJ=OzgxeONN`q[~>(qeA!Ht,(Jr',QXaOan+`duIr?AL37^rfnyX6K5vwQ`KDMlkH5H:UlhIi4~zX5q7BZ&<@xXXur;ps$t;jEzD$!Z;vWUI''H
Ip)&+=4ZgUcHe>+>q/!(<xXy(keTZK@,@f?D_4_GJswfu4l|QW@ddKVTF=+Lylq^XbW_=2%/3:Y&@M$?+v5+31v*U.%7[y)(i<?1?@V,*83q@Y;@G,pxJb
7/%El|~pMjY(yoJ^2b'wk3@Y^_AZ2A^bGq!tg/_~vJ:)hZkAguwy,m<WB2lVQm`K%N!~'2uY)|k.N1%J![sMwX&YI:25NI](mm$KRr+1~Rg^UCUoXv%7Z1
I)^$m^9?5O)_>3'[+tSF?C:$@ON@a<2QB3DDYou9%hXuT^.|f'@6jsSq21HswM0[^f'p(bJb@e@7MqkjfeV@8o&D]jR]+cBH0f**.jEq+il/Le*z8~@QmZ
0~T(5TTd4hR1;`C.0[uU!gE*2;rlwc|EtTZ<yHJ)B=2n9(BL^x1^C&'%mE?8<RZQnX$4~D0zvTKkgq=JH4Hd/@tRoxiQ<Uc$|nsb?&UH?RG_4hSZI9F[=0
K;7L*.26|+uu0&2s!7fn=aTtmM,>CsEz*P_I/'Bcap'1;7z>P:Q,/G~k~i,p(ynxC_EkZs]GCgDR.H[Cg)`)J.9cD7OtyC!snM&Dvw,s!brSP~$MMy?N'=
!Xx5USn*ewksO(16c5oRk<niQq%iVhQ`R*yR>Z,Sqp]X@Ry;$&V(!.D^|uA`f&%7Lh]uH1/W3./d6OYoWkda7JMRTSb|=>+Gy2.8|ePt4(*vDcreONOa>3
6iiW+HG]0honv[0IoSn7)9oRT2sVON|h(6,hM@K=LzjMis9bm'7.:cN2S5CtbZWNM2]KfP'l8z)H6a'idG:Q6VK*KM:mHQRo2%`SyGfS?Pjj2bMmL7eg,a
D.vWUM%(N<(d.xhg>pDSgvx!5h1sw^EQ[VI[R<HN_tWIkxiiFCQI`<rNZ!WW@NV%u*x7ERYI<`P&iAEw?yfZP$1Wg9&|!]&%(!MzC~Qc&df+k%zTG3y^>,
=?::Cu0uq;[+?uY^rX7Y@2gmi=nk%>^ixXCc7b1I/|<k(M>f8|/,*K.cxXg9I*YVU|dxgmWW]HI'M*k:*:S;uWucb?r=n+[^uIP/ksbfRmEv22!m$Q5%$P
=rr|IhR.n$1Vw!B3!8g^WNh/?!cpju[)mj]t@+w'4la8$`&5$P$[C`I5Z3C3BT1<[d7u|<p2&Nbgo`U!i8Iw6ckvc.w)CP7I+Ul)1%bqhS>sQHn<4Lk,/H
yjnXWzU5(&4gVh*Lao<)y[FX)B:FF70h)6=`2G/Yd&.[V!E$KZ=W.J'QkI!;u%G91.Z@BVcefBIV@OmNVg&6!)al*mu.p9f3O~?Z)jS_P2?g9UxXY3jUwV
/XAg4tcXsfu9'2szeN.mFGtii&V;H[zg%v1gbV+rQ2rSkz]Z6<5Hy%Ewe%%WfvQP:'/|R3s>7mv5rzv>v*iSMFK?R3OB(_1%7t(g(D2J*7crL~a@vzd/|;
|Es?'L9[^ox%0`8E/QE5^%ya:?K*0zNNU4ItkYIk~[<^WekjKx7,tY)eJ3FjunJs=sd:7^NI1>47dAmcYtI.lu2nK;|kv&s+@ACOhgfZCCUYg'++Fd*t<(
WJNjk.,$/$>k|Ojdo2UNA.MK/v8?0r?_K>!5[JmKE0,e0N(~D|67i>~pk5W_/2S/|y!sMvs>^Tr%(twv!Mv&CYR,4m;L%g/]CPRq`U'4MDpr&ritpI)2:S
Ukuq!i_y1lNart=`J6]0qu.wdA[@^eoxG6?GnEk'1_J+;4m5|BL4VQ62./2^mi3M<qvs607s*MjAzR0kk6jdiVEv,X!:'aXLYnJ8Tv%)xkB|qT29JCZk.Z
ohl0q3g&+YF83K[u<R[t,a|xx?2KTb[?^Ojz]8wLkMZ*ruO4j!5e6n+7,X(nr)+~'dkv'G3%BnkymG4D=_7u!qOY|sfm%aA,An$12k_IdxBV0Wou8j,knO
WOKnVw2tVW,8)AGDD>s*_nOc~cVOL(J3jG1PAwfXU<sNVU6zH`>8HhT|=|k6hOku)X&&QX_<W?/QAD$t8=Vj]=?<DDKF,cdI,QfdWy3@s:)DCI80Op@(`R
SV95z=qZ%[%EAg>d`)1tsx)$sKXXpch%0Fry4d055qWwL4K=b$';^]y>%R.x/W5XyfewUTop20;oH(ljmU54`BLCx%XjQ!:zbjLLZKZc%Ub]BKA|i81Aa<
9KZQx?gz!NLn'N.^E7e/>j_<U3NSYeRYUV.U=yZzs`Z)gPQae4[(c!pyL.s4i4_YJ_3M0jYzjd%BB8@)@hM$To)B11&mxB|&5^[Gd4u9s&d_P60A52Fg+W
h9Q<@L'h6ZpvUMLo]_W@K!V+,BH$%YiaVj]ET_zCtq~re/6cIfV5''%J<Y8[EcP*R)|ihOHt^p@;H9<QXV19E(J+^:~|@rIe<ZcM|7](jlm4A|3@~KsAb)
rLg?>XuO05$k?'=(.CYCIp>bI<SsA7bAF;c$NoRNNI<Xa_/esp_U(&'8/bhbIJ'q(k=8Fi%_`n;AjKE/`Mrjtvbhtq'yo6lZ'veo&@|Ba%ya:H+vp;KA)U
zdVLO_m3+S7W<SOi:~MYo5YjV,6l.U7d^hjJ&Wq%>hZ<1z8cTam_QR?MzwqS/tT9r=TYLK$Ev*p~O,7u9nn3>$MN0<W)KKJh(e)b1qm^i8+l=54^OwmZ=3
zKBs/1kyWe9Q!ukFjbP=,CaQ<C<uHc8<mOWuz@NB)I`&gYbTrcM?F?>DORu4_iluJr'fT&^h4P/W<!gt+WEUNT_14plHvP*&3ELFk,sW8@s**Qfk8pdb/B
iAKSM5/V*|M=*>hu%?3XYVv<A@17+L'YRO'PZw[Q*H<K2]r@:!ZT<hB^z'cPJC8cD'G9a(Rswe@iyH_m`aCAr=kMi^Mt|NrDvE=vu*TQ/gxZru7a*[Ed'J
t;9&M,06ShN`&=8zRBqqLWVnK5D|cFng]H,2l*FW>P$.StKI1:MnFN6EYBp_VkwI.&$JG@[7&g(<aN[,ddnu?z/&xhqqT&Kyt~Z8G4/+s7,Q?eSTfl!l>l
(BZ+,4d^PS&aU[2i)nA^PT_$(OK/Q/M29lVb$OiwV!uUUsDCGQFdzuo;^TP8(IgK~raB*VXYbDQxheLVjU&rn[^?FhR]obyV8KYk^WF@Q4=+oX]Jtu7)g'
k*`raOL't$SmOY</V`dRq:wN1<bBt1%DVzk</adv=ANAY'N!(9LPJ:r=IRmlUmv)xLU+awFLr@*,Fa*Ev|61mfqyUzk411J]YwfOD[Y<M1|R*KW!$EiOp.
4k1@bL$!'zP$YsH%C<,uRX`zeG_N&qG](z6ei[GUPE(|vb>+ws>,D9^fRqj<b5>(0WiVf[&y31a|ak;>d:sFp|03=w=!*A(xL1i7!HkL@,^y:W5PvOG]3Q
ve.`N192ekXj$DJwomTGt1y%)<kYm5O0eB>EV'~_F=m0|4*vTxcmOtmfgbFM,]oI`*$I:2H*:3*uQpxk>oCPc2f_*A|^k2pA3f8LVmseh4au8y^&R'od5~
7BeY/$4s`CLQb^o_Cg;%K|yufChr8Q**|Us>q9BPx@jnB38y(Bs*]d~$XR.]xKbxQWg,4rkm<a5[`;xSxwzr`nF@9HV=(C?uBS0g%BcmM~_+]*n'OM/dp]
vB1AV+xsz1;gAfuKWy`AmP39(D^Yuujyp*%]<aR@g!K$`<6VRakT<JKeT~Jw9qNHzzvzaXwf2Weo$URK?O|Sg]sP%hjl74dtZ]EOBSLQ',m8F^bkv9_tH8
LJgG%:|aDMY5G><eQLk70gi]uY]u/The;2l7ez/;+&T3=]U@+N6<ui6U379l!]r.(X0'z&LkYtQnO[,1piIn1_wj=odK%Y=PbIBv=mjP>?6T|WjA1kVhu^
Sq@wQ37qgJ)O%5)mO6,]NKCWm,C]n|ftDM[WoQhyA=`R?RRBT<[(26e%6$t?H$o.?2X(rfI&,HhxB.D'&Yft6q2BP%%!M4Btt^@@=)8Zw&jmuizDTn%S0$
ve)X0Rmou,)$4uY;4<S|`._~5ojPE:_';$>FXKsb~`@ejTzpn2Y<C(e:d`,=QzP5u|Y9<MymdGZ;7w0*3oi,el>*~=^],qjKVeD~4[/nPHKlc9/W6Grdqd
36h!2B9)K(J,U$m*va(W~I@9B|_M3e6GPw$,7+s=vZFQK<o_KcTUj=U?F5oPH%hRNq|T6aTrXgBwYf*A.~59dd`,c<(hzxU5]ag^~EylW&w%c@>9AJchcO
;%uEzy?NR91T.4qCc$=*L2716eyZ)?$PX7]/('GL$'2R)S@9quFnJ~3fX^SFtt:g$=__L%BM5$72=j.!;|[grOpxBf;EIq(,Lmd'?<Q2`d.^z=>IA=`4kE
Z9J!3!L>Ja,0=S8QvMRpDWiQb'jl)KQ<<y+^7yDKv~d(U@b:ACnw;jhh7!!816Z;ABUp9T&,!QikE[8:'LMag5vH;DH)z8W3IPH*$~>42U|@`&4(i)<Ps_
bTo6!|(8Rho7@ziF]~4?[fK4*>_.N,E+P|E$NUe_/$tGr8*GS,DTB`jkKYdN=)9/&0U*DI7~/1vFLTi]=uwh.n.;2%;0Dqu^WFIf=PDfIh%dtoS!7FI&E^
!GU>O2_W.=5ELT|+A)D]Moi>x.lLF)U/v&o++;nqp~!9*&xQl6E/o2w6=euiPX,.ugn^2Owt?pN.U&P%F%/86_dTl@$?Fc=^`]NQ,zl>zhMg=/Mgz][DvD
)e].Gl]GNH[Zvd.|UA.Uz|/*=F4?G?BUh&+8M=zowdXoJ<*$/wV%,5@)NBcf_Lz+X48q:>GE2e>/'9d4M[_R?ive(M/|HNILxtrpZt@tF(AxKk&9q$xft1
;v8c=JdYuZ`21OgvVuKOsS2Go2|+uBt72TNWosOE@;7g+sb'c8px<~ob,3FRih04p@VOo]G`wt`^ypioes!qZ$MlO9&YP|~@z'!A6=%tCv8y:$E8fQo]2n
3.l_i`4Z=$I,i&O,!TaN,`o.cRg0~b:x1vsJTPswN4&Z^TEJfFcD5waSno@xI!8KoNijl7G27C%*!P8oh]Z+*6iEgSsK_7_Q^>)=|jiI>j2k(hWVAl5+Ia
,su$]tdLQ;U_&Tiz!^;UE1t<unDo*gam$TyF1|QC@DzESE^(_cwF0lEfo+v4e!Ip60S1!~7Z)I$.5TlK*(ZtHZ3kvt1z@Mw_MX!Ja&6`Vaw]Q0Kk.pqc.k
._dj;n8s;kQR2pzGf!G)=,O8+;8|h[/aANiz)U3.a%y+Rqblc`yD9<=fDxj3<FS.Rm]JL,Le?MgPWg,2^,O.5r0G5~k?yvA5~US@Gl7I$5!HW~%C)ftc4t
7prub_uw5NXj%8&ZQcT(;y;1?^2`ECGAeq~9*.KB(nUC|,N|Q'GT$:(>4)@Rx?;Ie/hZ++;63*]Pvtz__s+a&L_(iclRM/yMiAINM`T&Dt]Nw!n)VTv;=C
x6RI3Y:@2&zFtWF@R%TX@+P+)myxJJm<O`BTn&aXvS3wh^Z)``2<P,.6xldG`scNYv>tLO&:Y/j:5lLN0ROwvavF0M)9juYYZ)[:s6Hp6J[/h9SU>BHFvD
4=z%1(R?5p5,>@wrHu*xq0(epGJkhhKeEi$+<efhWX0Io)cy;upI/NL*4JZeHrZ'Y(RFMe!bh_tSCwNDnA]MXU8G44h1^m@%)D:;'5DC;^m]DZp^f3SgH;
Q!]=ffncFs9gofwl+pFlGgn)v:)>YSrRRQuN'IUUnssrgNOjgehGJ|tOgwZE_7CXSkRTKa0Nf1haOq>yFJY~1lRxE=1yB5ZE'W8BTgVni:=ui[S.piF8.>
$*uk`s*|k6x(gKYg!IUF$]rK|yl:tEMmdjs8W^>KXVI3J_mlUB|/7;w,~:1(yGUh7GuclAPIvLK6td6DFVfu=l1~W:Jyk@Niy.IfY`XbnnA4PBEy0;NK:r
m;R_:%>K6>^c)i99.+>Q1,.Y*<)&r0cKhW:7xgoUuw5w3?F@+nY]O,Gz5'QX=quqUXoa;>kO%ZWAQ.MIt[$+$50^g=b$6hK%!<fy*fQxWanCJ,wfVbwL_J
O^[Zp9b;p/ldL6hGGORcjibRK!F&!9h&(5<lj/M'v+x*M6=v>dPAZ^Pp:aH`j;6;;R:S_W|ydUVe;/P%pj;[5b%'+!<+$G'Nrc~3,RoT@m?4WQH/a.5%!2
3+%Oh~W9ADX,A!B4[fq@p/1WH^GIR<c.<25YUFLA+Wo79C)UGS/<pv=*Uo%xh?SvIr%1QX9Ep0kBV]69C$X*tx5KsYJk*w5cw$&&FdUr~.KYMMPFB&`&tU
aVF];oPi^dqUy_^)n`pRAKNQ=h3O6?T2y^v5ftr$X(>VWK0P.TU0HJViaoxzHnpG`R=ogphtjN;G.:T$stpOulvIl9b%..IRSY!C)kM.QrK$Or5m@]59n+
S5])ba1Ug+M`R'Sq:W~;|RFw3&Q;)c~&j]*]?IamMX6p*ssE/ZR[ZuAlbs~&?W7@`5uVJ^4s)OC;JZDjeV;]Q*O(yi[%wlVnk;|s_~ZfUgaPK(V5;~b?V;
J~J6>/fv!tNYp*h:!U6|:Ty!xAE^$!$iI*>jSJuk!28,,2gm2SNAk<r=i_6yrdb&i6GMf]KaHRg@Zy(c78hu5?o!HR51:+M9MR]?s5ygL()kh>m|cuNE_R
Z?8egsqv32I$r)Tasv=x.cX`mEa^O^tAnEi1rjg7Lo<aC?JHWD4+ryzE&CcwYw>tFlEvt:U[?dd>tPT|n8CEAL2Dv?r6mh):L;@'oI_1Z!yuRYh4tq3cm[
,(3J@5>QcTeh8@!6b5l6+a=*[8nv_OI(R.vZalB>7v^h</J'!z|P0CKVE!tqyIJ$|::nO,2WL`$fwE7kng3dn7mMfI@FDopt,]Z2=.SQEczBbF?+*_[L.@
g7!I09ZM.tg(NzK'BYe.bh5NNIRqc@~M;,2^1](@0NV>m4/6L5pm(Eu`:ms.cG/iB+4uhag/k]?KI7N75tv=DdMSyOz'8Zz5+`:rodFb(w:xH;+q`E[$c5
(XA8~P@,fRx'D$C)kTD9E3=x!RwzzD2q(>)5o6|WB7es<['[+nGPo3Ka>?p=r[%k7['xTWxnIP$YMW2c&scdaJ!zzy<K>G1etr2U]BoM9Sr54xUSCdvo3G
OX[@PD*@0C$^u0fN0^Nt1d.UAsWguH&hXsTmZj/,SayKBCxK+.Cx|'SDjRMxl3Uf:?1oS2_Zmoz!`I~0'[0DK'1O<UW_F8L,T]6hrBHb/PMksN`92*p:jJ
DNL|T2,5oKOS()uI@Dv[(7n/scxeO7DU|@|.(t?6~;k>mMSo*TsforNe5UpqeNGwaFsomRBp4OViVg/I;L7).7r1HTD76Fqd[IRI9d*>nH=@SJwKZFYHNM
EKAvK<f*Alg^%&~nc[l8$6=:UBdw4GBbrktAGC&'S^QdZXg:a4TxVO6W;05^ZQT[|iq@L@Q,,'6y<'|*nL8kD.PgYCin`htVp4uu[p*FsmvO*BCy:dgR(D
g)b4UJaA<AjNbM1Op[,!E<hoZCEp'_KG.)[4~aO4&pMHSo8K`]_3>I?MlU:FaqskDe@''k+@o>a~l=7INXsHia$+bRLr^kB'Gc))Wggl@gm^VnL(LS]M3z
'Pv&Jz~F]bXKD`qwgrw)7w`=I^PIFas?pm5RSBZBUzi*=`l3~K*U%<|J]7iGB1sB)co_uq~7+T'%|twzP`u=i,;O0iIl8fDd/G]cfe1zID1q!E[?L3Bq+u
B%z<vWO.93%,9cl,`lrCe:_FFB79Unh!0C.6SC))8+Hk?wu&NQlUCS@R[N8N!S1W!vtuJ'2Jn;h0I[1sOwsSp[CV(SIBsvH%yevx8*qw`fi>&b=I,!7)Bc
lr)EK/lJ^D@$$1fZ2!pv<UWTm@|Td;ucwQJv*~SJi[_qj(tz5sxDM!Uj^,?]qiwx&!JpmuIp'%=<;&H`T]dA))=X'E2,!23wF/:%`Xm94,0@=xj1U9':XV
ilPv6=?~tw?qvoC3v(sU>7r'g*YEtCEYMy+&M(*&gV6c9^'2pe7iUOo!_'N,O?ORaWj$h`dkK(AI4G8ku~bome;JD4Hc$3AS,>*^1bhMIeTzFnH69V)1@$
_b`;:pswH&w1Mas=&)?N!wg`XK+.uLDwe.L2Nu~s]s$Zc=X_$0cw0Nzw:~_Vcd3MkU`dB$SAxP/69|_oQ<dSd8=z/,(XDSa<Z:>(N1B4Ex:8zo.7U$]9p&
^lyg.^bG5TEZz4wG36r|]dX~Aq4(wsp[nL?3T+~NY~[o6SfueCMsaeV],RpbQx+pZF^@5W3u=4u9LA1IexD0Dp7jZLmki:>H`o'*^g'STI=7^ee'=ImD/L
ArtLb;Bcs7C(_aVZ0CzA&eUeh^9LU+ncE?Ayjc+Y4IR3[OXv:a7y5X^^US_JeEIxezDan6B*n5$f7b7e+MZh0nmk?gMms!.u73_cb8,r_22NKj`2dLrRm0
BRQD:>Q$IE*U.(6E']O6yLGm>`yz~~$1%RpF`!W.96Dt1$lPD'gY0DW'2>7TLMxi9<*i0Uy3TCIx@x+8*PZPZ7Vto3=YfO;+pv&fv&nVb^?Q!`?r6MI:_^
p3GyFmqd]v,*[v24>!?wSZ^tIOXP05,PjZk4?dwa=aOSW.^D`ZpJ7BK]al'(;B];u.~*2expm)^p>w~oJ'g20>W>',Ms9m&ag7NJ[%Hm+!Lr(S^yRg4u:4
PrKh<mNx,KZ@~v%s&xG)!2rvJBU&K>Jv^z:!,UmwW8rdrK<~fS%^Ps@OT)ivqx/p80x0=b/7?XD4*uh>;6]`C@I&sObf5w;)0)@MvoNG!p*sVsR7JH%7g>
fD@wMoK/jDP?,[:+~uYC6orZ3N)Q6q@L+TL/Q.s.w,Keg4yXm`O2K@DLy+tHXG5_!,&.'^[OETpRkmpORU_Voq8@+_kh`on%ixPoF,%_r)mEI7X&9E`d'K
8pT]Q&Esy1u9KAEo5%,9&9jk&@Qj,H?n3t%|Wp+(iC8*H|?]NA_,L5N&_cV.lnike>(%s;~@)?Sr[=6YkSX@K:0?]6,hi7KZn*qCF5E1WSZ0P~UO;n+MEq
>E_(jk[,rx1sXzQ7p;3OM@Th5FNyl/BF|?DEt1,!U"

end InlineMarkup
